/-
What is written in UTF-8 reads back, and nothing else does.

The bytes of a character are told apart by their lead byte: each of the four forms begins in a
range of its own (`decode_one` to `decode_four`), and what its bytes hold of the code point is put
together again.

`Form` says which number some bytes hold, be they the shortest ones for it or not.  A `Sequence` is
a form that is not overlong and holds a code point that is no surrogate; it is the only one for its
character, so bytes that are put together from sequences are the bytes of one text.

* **`decode_encode`** — the bytes of a text are decoded to the text;
* **`spells_iff`** — sequences one after the other are the bytes of the text they spell;
* **`decode_eq_some_iff`** — bytes are decoded exactly if they spell a text, and then to it.
-/
import PromptShelf.Text.Utf8

namespace PromptShelf.Text.Utf8

/-! ### The four forms -/

section Forms

variable {a b c d : UInt8}

theorem not_within {low high low' high' : Nat} (h : within low' high' a = true)
    (hapart : high < low' ∨ high' < low) : within low high a = false := by
  simp only [within, Bool.and_eq_true, decide_eq_true_eq, Bool.and_eq_false_iff,
    decide_eq_false_iff_not] at h ⊢
  omega

theorem decode_one (ha : within 0x00 0x7F a = true) (rest : List UInt8) :
    decode (a :: rest) = (decode rest).map (Char.ofNat a.toNat :: ·) := by
  rw [decode.eq_def]
  simp only [ha, if_true]

theorem decode_two (ha : within 0xC2 0xDF a = true) (hb : isTail b = true) (rest : List UInt8) :
    decode (a :: b :: rest) =
      (decode rest).map (Char.ofNat (a.toNat % 32 * 64 + b.toNat % 64) :: ·) := by
  have h1 : within 0x00 0x7F a = false := not_within ha (by omega)
  rw [decode.eq_def]
  simp [h1, ha, hb]

theorem decode_three (ha : within 0xE0 0xEF a = true) (hb : isSecondOfThree a b = true)
    (hc : isTail c = true) (rest : List UInt8) :
    decode (a :: b :: c :: rest) = (decode rest).map
      (Char.ofNat (a.toNat % 16 * 4096 + b.toNat % 64 * 64 + c.toNat % 64) :: ·) := by
  have h1 : within 0x00 0x7F a = false := not_within ha (by omega)
  have h2 : within 0xC2 0xDF a = false := not_within ha (by omega)
  rw [decode.eq_def]
  simp [h1, h2, ha, hb, hc]

theorem decode_four (ha : within 0xF0 0xF4 a = true) (hb : isSecondOfFour a b = true)
    (hc : isTail c = true) (hd : isTail d = true) (rest : List UInt8) :
    decode (a :: b :: c :: d :: rest) = (decode rest).map
      (Char.ofNat (a.toNat % 8 * 262144 + b.toNat % 64 * 4096 + c.toNat % 64 * 64 +
        d.toNat % 64) :: ·) := by
  have h1 : within 0x00 0x7F a = false := not_within ha (by omega)
  have h2 : within 0xC2 0xDF a = false := not_within ha (by omega)
  have h3 : within 0xE0 0xEF a = false := not_within ha (by omega)
  rw [decode.eq_def]
  simp [h1, h2, h3, ha, hb, hc, hd]

end Forms

/-! ### Bytes of a character -/

theorem toNat_toUInt8 {n : Nat} (h : n < 256) : n.toUInt8.toNat = n := by
  simp [Nat.mod_eq_of_lt h]

theorem within_toUInt8 {low high n : Nat} (h : n < 256) (hlow : low ≤ n) (hhigh : n ≤ high) :
    within low high n.toUInt8 = true := by
  rw [within, toNat_toUInt8 h, Bool.and_eq_true, decide_eq_true_eq, decide_eq_true_eq]
  exact ⟨hlow, hhigh⟩

theorem isTail_toUInt8 {n : Nat} (h : n < 64) : isTail (0x80 + n).toUInt8 = true :=
  within_toUInt8 (by omega) (by omega) (by omega)

/-- No code point is a surrogate, and none is above the last one. -/
theorem toNat_bounds (c : Char) : c.toNat < 0xD800 ∨ 0xDFFF < c.toNat ∧ c.toNat < 0x110000 :=
  c.valid

/-- A second byte may be any that goes on with a form, but for the bounds that two of the lead
bytes set. -/
theorem second_toUInt8 {a : UInt8} {first last low high n : Nat} (hn : n < 64)
    (hlow : a.toNat = first → low ≤ 0x80 + n) (hhigh : a.toNat = last → 0x80 + n ≤ high) :
    (if a.toNat = first then within low 0xBF (0x80 + n).toUInt8
      else if a.toNat = last then within 0x80 high (0x80 + n).toUInt8
      else isTail (0x80 + n).toUInt8) = true := by
  split
  · next hfirst => exact within_toUInt8 (by omega) (hlow hfirst) (by omega)
  · split
    · next hlast => exact within_toUInt8 (by omega) (by omega) (hhigh hlast)
    · exact isTail_toUInt8 hn

/-- The second byte of three starts no shorter form and no surrogate. -/
theorem isSecondOfThree_toUInt8 {n : Nat} (hlow : 0x800 ≤ n) (hhigh : n < 0x10000)
    (hbounds : n < 0xD800 ∨ 0xDFFF < n) :
    isSecondOfThree (0xE0 + n / 4096).toUInt8 (0x80 + n / 64 % 64).toUInt8 = true := by
  have hlead : (0xE0 + n / 4096).toUInt8.toNat = 0xE0 + n / 4096 := toNat_toUInt8 (by omega)
  exact second_toUInt8 (Nat.mod_lt _ (by omega)) (by omega) (by omega)

/-- The second byte of four starts no shorter form and no number past the last code point. -/
theorem isSecondOfFour_toUInt8 {n : Nat} (hlow : 0x10000 ≤ n) (hhigh : n < 0x110000) :
    isSecondOfFour (0xF0 + n / 262144).toUInt8 (0x80 + n / 4096 % 64).toUInt8 = true := by
  have hlead : (0xF0 + n / 262144).toUInt8.toNat = 0xF0 + n / 262144 := toNat_toUInt8 (by omega)
  exact second_toUInt8 (Nat.mod_lt _ (by omega)) (by omega) (by omega)

theorem decode_encodeChar (c : Char) (rest : List UInt8) :
    decode (encodeChar c ++ rest) = (decode rest).map (c :: ·) := by
  have hbounds := toNat_bounds c
  have hc : Char.ofNat c.toNat = c := Char.ofNat_toNat c
  generalize hn : c.toNat = n at hbounds hc
  -- In each form the bytes hold the digits of the code point to the base 64.
  have hcode : ∀ m, m = n → (decode rest).map (Char.ofNat m :: ·) = (decode rest).map (c :: ·) := by
    rintro m rfl
    rw [hc]
  simp only [encodeChar, hn]
  by_cases h1 : n < 0x80
  · rw [if_pos h1, List.singleton_append,
      decode_one (within_toUInt8 (by omega) (by omega) (by omega))]
    exact hcode _ (toNat_toUInt8 (by omega))
  rw [if_neg h1]
  by_cases h2 : n < 0x800
  · rw [if_pos h2, List.cons_append, List.singleton_append,
      decode_two (within_toUInt8 (by omega) (by omega) (by omega))
        (isTail_toUInt8 (Nat.mod_lt _ (by omega)))]
    refine hcode _ ?_
    rw [toNat_toUInt8 (by omega), toNat_toUInt8 (by omega)]
    omega
  rw [if_neg h2]
  by_cases h3 : n < 0x10000
  · rw [if_pos h3, List.cons_append, List.cons_append, List.singleton_append,
      decode_three (within_toUInt8 (by omega) (by omega) (by omega))
        (isSecondOfThree_toUInt8 (by omega) h3 (by omega))
        (isTail_toUInt8 (Nat.mod_lt _ (by omega)))]
    refine hcode _ ?_
    rw [toNat_toUInt8 (by omega), toNat_toUInt8 (by omega), toNat_toUInt8 (by omega)]
    omega
  · rw [if_neg h3, List.cons_append, List.cons_append, List.cons_append, List.singleton_append,
      decode_four (within_toUInt8 (by omega) (by omega) (by omega))
        (isSecondOfFour_toUInt8 (by omega) (by omega))
        (isTail_toUInt8 (Nat.mod_lt _ (by omega))) (isTail_toUInt8 (Nat.mod_lt _ (by omega)))]
    refine hcode _ ?_
    rw [toNat_toUInt8 (by omega), toNat_toUInt8 (by omega), toNat_toUInt8 (by omega),
      toNat_toUInt8 (by omega)]
    omega

/-- What is written reads back. -/
theorem decode_encode (cs : List Char) : decode (encode cs) = some cs := by
  induction cs with
  | nil => rfl
  | cons c cs ih => rw [encode_cons, decode_encodeChar, ih, Option.map_some]

/-! ### Well-formed bytes -/

/-- A byte that goes on with a form. -/
def Tail (b : UInt8) : Prop := 0x80 ≤ b.toNat ∧ b.toNat < 0xC0

/-- The bytes hold a number: the first one tells how many follow, and each of these holds six
bits. -/
inductive Form : List UInt8 → Nat → Prop
  | one {a : UInt8} (ha : a.toNat < 0x80) : Form [a] a.toNat
  | two {a b : UInt8} (ha : 0xC0 ≤ a.toNat ∧ a.toNat < 0xE0) (hb : Tail b) :
      Form [a, b] ((a.toNat - 0xC0) * 64 + (b.toNat - 0x80))
  | three {a b c : UInt8} (ha : 0xE0 ≤ a.toNat ∧ a.toNat < 0xF0) (hb : Tail b) (hc : Tail c) :
      Form [a, b, c] ((a.toNat - 0xE0) * 4096 + (b.toNat - 0x80) * 64 + (c.toNat - 0x80))
  | four {a b c d : UInt8} (ha : 0xF0 ≤ a.toNat ∧ a.toNat < 0xF8) (hb : Tail b) (hc : Tail c)
      (hd : Tail d) :
      Form [a, b, c, d] ((a.toNat - 0xF0) * 262144 + (b.toNat - 0x80) * 4096 +
        (c.toNat - 0x80) * 64 + (d.toNat - 0x80))

/-- A form that no shorter one can replace, of a code point that is no surrogate. -/
structure Sequence (bs : List UInt8) (n : Nat) : Prop where
  form : Form bs n
  shortest : ∀ bs', Form bs' n → bs.length ≤ bs'.length
  not_surrogate : n < 0xD800 ∨ 0xDFFF < n
  le_last : n ≤ 0x10FFFF

/-- The bytes are sequences, one for each character of the text. -/
inductive Spells : List UInt8 → List Char → Prop
  | nil : Spells [] []
  | cons {bs rest : List UInt8} {n : Nat} {cs : List Char} (hn : Sequence bs n)
      (hrest : Spells rest cs) : Spells (bs ++ rest) (Char.ofNat n :: cs)

def WellFormed (bytes : List UInt8) : Prop := ∃ cs, Spells bytes cs

/-- What a form can hold, by its length. -/
theorem Form.size {bs : List UInt8} {n : Nat} (h : Form bs n) :
    bs.length = 1 ∧ n < 0x80 ∨ bs.length = 2 ∧ n < 0x800 ∨ bs.length = 3 ∧ n < 0x10000 ∨
      bs.length = 4 := by
  cases h with
  | one ha => exact .inl ⟨rfl, ha⟩
  | two ha hb =>
    refine .inr (.inl ⟨rfl, ?_⟩)
    obtain ⟨-, hb⟩ := hb
    omega
  | three ha hb hc =>
    refine .inr (.inr (.inl ⟨rfl, ?_⟩))
    obtain ⟨-, hb⟩ := hb
    obtain ⟨-, hc⟩ := hc
    omega
  | four => exact .inr (.inr (.inr rfl))

/-- Forms of one length hold different numbers. -/
theorem Form.eq_of_length {bs bs' : List UInt8} {n : Nat} (h : Form bs n) (h' : Form bs' n)
    (hlength : bs.length = bs'.length) : bs = bs' := by
  generalize hm : n = m at h'
  cases h with
  | one ha =>
    cases h' with
    | one => rw [UInt8.toNat_inj.mp hm]
    | _ => exact absurd hlength (by simp)
  | two ha hb =>
    cases h' with
    | two ha' hb' =>
      simp only [Tail] at hb hb'
      simp only [List.cons.injEq, ← UInt8.toNat_inj, and_true]
      omega
    | _ => exact absurd hlength (by simp)
  | three ha hb hc =>
    cases h' with
    | three ha' hb' hc' =>
      simp only [Tail] at hb hb' hc hc'
      simp only [List.cons.injEq, ← UInt8.toNat_inj, and_true]
      omega
    | _ => exact absurd hlength (by simp)
  | four ha hb hc hd =>
    cases h' with
    | four ha' hb' hc' hd' =>
      simp only [Tail] at hb hb' hc hc' hd hd'
      simp only [List.cons.injEq, ← UInt8.toNat_inj, and_true]
      omega
    | _ => exact absurd hlength (by simp)

theorem Sequence.unique {bs bs' : List UInt8} {n : Nat} (h : Sequence bs n)
    (h' : Sequence bs' n) : bs = bs' :=
  h.form.eq_of_length h'.form
    (Nat.le_antisymm (h.shortest bs' h'.form) (h'.shortest bs h.form))

/-- A form is the shortest one if its number does not fit into fewer bytes. -/
theorem Form.shortest {bs : List UInt8} {n : Nat}
    (h : bs.length ≤ 1 ∨ bs.length = 2 ∧ 0x80 ≤ n ∨ bs.length = 3 ∧ 0x800 ≤ n ∨
      bs.length = 4 ∧ 0x10000 ≤ n) :
    ∀ bs', Form bs' n → bs.length ≤ bs'.length := by
  intro bs' h'
  have hsize := h'.size
  omega

/-! ### What is decoded -/

section Sequences

variable {a b c d : UInt8}

theorem within_iff {low high : Nat} : within low high a = true ↔ low ≤ a.toNat ∧ a.toNat ≤ high := by
  simp [within]

theorem tail_of_isTail (h : isTail b = true) : Tail b := by
  obtain ⟨hlow, hhigh⟩ := within_iff.mp h
  exact ⟨hlow, by omega⟩

/-- Behind the first lead byte of its form a second byte is bounded from below, and behind another
one from above. -/
theorem tail_of_second {first last low high : Nat} (hlow : 0x80 ≤ low) (hhigh : high ≤ 0xBF)
    (hne : first ≠ last)
    (h : (if a.toNat = first then within low 0xBF b
      else if a.toNat = last then within 0x80 high b else isTail b) = true) :
    Tail b ∧ (a.toNat = first → low ≤ b.toNat) ∧ (a.toNat = last → b.toNat ≤ high) := by
  simp only [Tail]
  split at h
  · obtain ⟨hfrom, hto⟩ := within_iff.mp h
    omega
  · split at h
    · obtain ⟨hfrom, hto⟩ := within_iff.mp h
      omega
    · obtain ⟨hfrom, hto⟩ := tail_of_isTail h
      omega

theorem tail_of_isSecondOfThree (h : isSecondOfThree a b = true) :
    Tail b ∧ (a.toNat = 0xE0 → 0xA0 ≤ b.toNat) ∧ (a.toNat = 0xED → b.toNat ≤ 0x9F) :=
  tail_of_second (by decide) (by decide) (by decide) h

theorem tail_of_isSecondOfFour (h : isSecondOfFour a b = true) :
    Tail b ∧ (a.toNat = 0xF0 → 0x90 ≤ b.toNat) ∧ (a.toNat = 0xF4 → b.toNat ≤ 0x8F) :=
  tail_of_second (by decide) (by decide) (by decide) h

theorem sequence_one (ha : within 0x00 0x7F a = true) : Sequence [a] a.toNat := by
  obtain ⟨-, hhigh⟩ := within_iff.mp ha
  exact ⟨.one (by omega), Form.shortest (by simp), by omega, by omega⟩

theorem sequence_two (ha : within 0xC2 0xDF a = true) (hb : isTail b = true) :
    Sequence [a, b] (a.toNat % 32 * 64 + b.toNat % 64) := by
  obtain ⟨hlow, hhigh⟩ := within_iff.mp ha
  have htail : Tail b := tail_of_isTail hb
  have ⟨hlowb, hhighb⟩ := htail
  have hn : a.toNat % 32 * 64 + b.toNat % 64 = (a.toNat - 0xC0) * 64 + (b.toNat - 0x80) := by omega
  rw [hn]
  exact ⟨.two ⟨by omega, by omega⟩ htail, Form.shortest (by simp; omega), by omega, by omega⟩

theorem sequence_three (ha : within 0xE0 0xEF a = true) (hb : isSecondOfThree a b = true)
    (hc : isTail c = true) :
    Sequence [a, b, c] (a.toNat % 16 * 4096 + b.toNat % 64 * 64 + c.toNat % 64) := by
  obtain ⟨hlow, hhigh⟩ := within_iff.mp ha
  obtain ⟨htailb, hfirst, hlast⟩ := tail_of_isSecondOfThree hb
  have htailc : Tail c := tail_of_isTail hc
  have ⟨hlowb, hhighb⟩ := htailb
  have ⟨hlowc, hhighc⟩ := htailc
  have hn : a.toNat % 16 * 4096 + b.toNat % 64 * 64 + c.toNat % 64 =
      (a.toNat - 0xE0) * 4096 + (b.toNat - 0x80) * 64 + (c.toNat - 0x80) := by omega
  rw [hn]
  exact ⟨.three ⟨by omega, by omega⟩ htailb htailc, Form.shortest (by simp; omega), by omega,
    by omega⟩

theorem sequence_four (ha : within 0xF0 0xF4 a = true) (hb : isSecondOfFour a b = true)
    (hc : isTail c = true) (hd : isTail d = true) :
    Sequence [a, b, c, d] (a.toNat % 8 * 262144 + b.toNat % 64 * 4096 + c.toNat % 64 * 64 +
      d.toNat % 64) := by
  obtain ⟨hlow, hhigh⟩ := within_iff.mp ha
  obtain ⟨htailb, hfirst, hlast⟩ := tail_of_isSecondOfFour hb
  have htailc : Tail c := tail_of_isTail hc
  have htaild : Tail d := tail_of_isTail hd
  have ⟨hlowb, hhighb⟩ := htailb
  have ⟨hlowc, hhighc⟩ := htailc
  have ⟨hlowd, hhighd⟩ := htaild
  have hn : a.toNat % 8 * 262144 + b.toNat % 64 * 4096 + c.toNat % 64 * 64 + d.toNat % 64 =
      (a.toNat - 0xF0) * 262144 + (b.toNat - 0x80) * 4096 + (c.toNat - 0x80) * 64 +
        (d.toNat - 0x80) := by omega
  rw [hn]
  exact ⟨.four ⟨by omega, by omega⟩ htailb htailc htaild, Form.shortest (by simp; omega), by omega,
    by omega⟩

end Sequences

/-- What is decoded is spelled by the bytes. -/
theorem spells_of_decode {bytes : List UInt8} {cs : List Char} (h : decode bytes = some cs) :
    Spells bytes cs := by
  fun_induction decode bytes generalizing cs with
  | case1 =>
    obtain rfl := Option.some.inj h
    exact .nil
  | case2 a rest ha ih =>
    obtain ⟨cs, hrest, rfl⟩ := Option.map_eq_some_iff.mp h
    exact .cons (sequence_one ha) (ih hrest)
  | case4 a _ b rest hab ih =>
    obtain ⟨cs, hrest, rfl⟩ := Option.map_eq_some_iff.mp h
    obtain ⟨ha, hb⟩ := Bool.and_eq_true_iff.mp hab
    exact .cons (sequence_two ha hb) (ih hrest)
  | case6 a _ b _ c rest habc ih =>
    obtain ⟨cs, hrest, rfl⟩ := Option.map_eq_some_iff.mp h
    simp only [Bool.and_eq_true] at habc
    obtain ⟨⟨ha, hb⟩, hc⟩ := habc
    exact .cons (sequence_three ha hb hc) (ih hrest)
  | case8 a _ b _ c _ d rest habcd ih =>
    obtain ⟨cs, hrest, rfl⟩ := Option.map_eq_some_iff.mp h
    simp only [Bool.and_eq_true] at habcd
    obtain ⟨⟨⟨ha, hb⟩, hc⟩, hd⟩ := habcd
    exact .cons (sequence_four ha hb hc hd) (ih hrest)
  | case3 | case5 | case7 | case9 => exact absurd h (by simp)

/-! ### What is spelled -/

theorem toNat_ofNat_of_sequence {bs : List UInt8} {n : Nat} (h : Sequence bs n) :
    (Char.ofNat n).toNat = n := by
  have hlast := h.le_last
  have hvalid : n.isValidChar := by
    rcases h.not_surrogate with hlow | hhigh
    · exact .inl hlow
    · exact .inr ⟨hhigh, by omega⟩
  rw [Char.ofNat, dif_pos hvalid]
  rfl

/-- The bytes of a character are a sequence, since they are decoded. -/
theorem sequence_encodeChar (c : Char) : Sequence (encodeChar c) c.toNat := by
  have hdecode : decode (encodeChar c) = some [c] := by
    rw [← List.append_nil (encodeChar c), decode_encodeChar]
    rfl
  generalize hbytes : encodeChar c = bytes at hdecode
  cases spells_of_decode hdecode with
  | cons hn hrest =>
    cases hrest
    rw [List.append_nil, toNat_ofNat_of_sequence hn]
    exact hn

/-- Sequences one after the other are the bytes of the text that they spell. -/
theorem spells_iff {bytes : List UInt8} {cs : List Char} :
    Spells bytes cs ↔ bytes = encode cs := by
  constructor
  · intro h
    induction h with
    | nil => rfl
    | @cons bs rest n cs hn _ ih =>
      have hc := sequence_encodeChar (Char.ofNat n)
      rw [toNat_ofNat_of_sequence hn] at hc
      rw [encode_cons, hn.unique hc, ih]
  · rintro rfl
    exact spells_of_decode (decode_encode cs)

/-- Bytes are decoded exactly if they spell a text, and then to that text. -/
theorem decode_eq_some_iff {bytes : List UInt8} {cs : List Char} :
    decode bytes = some cs ↔ Spells bytes cs := by
  refine ⟨spells_of_decode, fun h => ?_⟩
  rw [spells_iff.mp h, decode_encode]

theorem decode_eq_none_iff {bytes : List UInt8} : decode bytes = none ↔ ¬ WellFormed bytes := by
  rw [WellFormed, not_exists, Option.eq_none_iff_forall_ne_some]
  exact forall_congr' fun cs => not_congr decode_eq_some_iff

/-- Overlong forms, surrogates and numbers past the last code point spell nothing. -/
example : ¬ WellFormed [0xC0, 0x80] ∧ ¬ WellFormed [0xED, 0xA0, 0x80] ∧
    ¬ WellFormed [0xF4, 0x90, 0x80, 0x80] := by
  simp only [← decode_eq_none_iff]
  decide

end PromptShelf.Text.Utf8
