/-
Texts of files.

A read in the default encoding is decided by what stands where the path leads: bytes that spell a
text give it, with its line ends unified, and all other bytes give a fault.  Every path without a
null character has such an end, and its status says whether there is a text or a fault
(`Classified`).

* **`readText_default`** — the end of a read in the default encoding;
* **`readText_wellFormed`** — which bytes are read as a text, and as which one.
-/
import PromptShelf.FileTree.Reading
import PromptShelf.Proofs.Path.Normal
import PromptShelf.Proofs.Text.LineEnds
import PromptShelf.Proofs.Text.Utf8

namespace PromptShelf

open Text (Unified)
open Text.Utf8 (Spells WellFormed)

/-- There is a text exactly in a good status and a fault exactly in a bad one, and a missing file
has a status of its own. -/
structure ReadResult.Classified (r : ReadResult) : Prop where
  content_iff : r.content.isSome ↔ r.status = .ok
  fault_iff : r.fault.isSome ↔ r.status ≠ .ok
  missing_iff : r.status = .notFound ↔
    ∃ fault : FileFault, r.fault = some (.file fault) ∧ fault.name = "FileNotFoundError"

namespace ReadResult

theorem classified_ofText (content : String) : (ofText content).Classified :=
  ⟨by simp [ofText], by simp [ofText], by simp [ofText]⟩

theorem classified_ofFault (fault : ReadFault) : (ofFault fault).Classified := by
  have hstatus : statusOf fault ≠ .ok := by
    cases fault with
    | file f => cases f <;> decide
    | undecodable => decide
    | named name => simp [statusOf]
  refine ⟨by simpa [ofFault] using hstatus, by simpa [ofFault] using hstatus, ?_⟩
  cases fault with
  | file f => cases f <;> simp [ofFault, statusOf, FileFault.name]
  | undecodable => simp [ofFault, statusOf]
  | named name => simp [ofFault, statusOf]

theorem classified_ofBytes (e : Text.Encoding) (bytes : List UInt8) :
    (ofBytes e bytes).Classified := by
  rw [ofBytes]
  split
  · exact classified_ofText _
  · exact classified_ofFault _

/-- Bytes that spell a text are read as that text with its line ends unified. -/
theorem ofBytes_of_spells {bytes : List UInt8} {cs : List Char} (h : Spells bytes cs) :
    ofBytes .utf8 bytes = ofText (String.ofList (Text.unifyLineEnds cs)) := by
  rw [ofBytes, Text.Encoding.decode, Text.Utf8.decode_eq_some_iff.mpr h]

theorem ofBytes_of_not_wellFormed {bytes : List UInt8} (h : ¬ WellFormed bytes) :
    ofBytes .utf8 bytes = ofFault .undecodable := by
  rw [ofBytes, Text.Encoding.decode, Text.Utf8.decode_eq_none_iff.mpr h]

end ReadResult

theorem FilePath.hasNull_ofString {path : String} (h : '\x00' ∉ path.toList) :
    (FilePath.ofString path).hasNull = false := by
  rw [hasNull, List.any_eq_false]
  intro s hs
  rw [List.contains_iff_mem]
  exact fun hnull => h (Path.mem_of_mem_segmentsBy (List.mem_filter.mp hs).1 hnull)

namespace FileTree

variable {t : FileTree} {directory l : Location} {path : String} {bytes : List UInt8}

/-- A read in the default encoding ends as the bytes that it finds say. -/
theorem readText_default (hpath : '\x00' ∉ path.toList) :
    t.readText directory path defaultEncoding =
      .ok (match t.readBytes directory (.ofString path) with
        | .error fault => .ofFault (.file fault)
        | .ok bytes => .ofBytes .utf8 bytes) := by
  have hencoding : Text.Encoding.named? defaultEncoding = some .utf8 := by decide
  have hdefault : defaultEncoding.toList.contains '\x00' = false := by decide
  simp only [readText, hdefault, FilePath.hasNull_ofString hpath, hencoding]
  cases t.readBytes directory (.ofString path) <;> rfl

theorem readBytes_of_locate {p : FilePath} (hl : t.locate .followed directory p = .ok l)
    (hnode : t.node? l = some (.file bytes)) : t.readBytes directory p = .ok bytes := by
  simp only [readBytes, hl, hnode]

/-- A text without carriage returns is read from its own bytes. -/
theorem encode_of_not_mem {cs ds : List Char} (h : Unified cs ds)
    (hreturn : 0x0D ∉ Text.Utf8.encode cs) : Text.Utf8.encode ds = Text.Utf8.encode cs := by
  have hcs : '\r' ∉ cs := by
    intro hmem
    exact hreturn (List.mem_flatMap.mpr ⟨'\r', hmem, by decide⟩)
  rw [Text.unified_iff.mp h, Text.unifyLineEnds_of_not_mem hcs]

/-- A read in the default encoding has an end for every path without a null character, and this
end is classified.  For a file it is a text exactly if the bytes are well-formed, namely the text
they spell with its line ends unified, so that it has the same bytes if there is no carriage return
among them.  Bytes that are not well-formed cannot be decoded. -/
theorem readText_wellFormed (t : FileTree) (directory : Location) (path : String)
    (hpath : '\x00' ∉ path.toList) :
    ∃ result, t.readText directory path defaultEncoding = .ok result ∧ result.Classified ∧
      ∀ l bytes, t.locate .followed directory (.ofString path) = .ok l →
        t.node? l = some (.file bytes) →
          (result.status = .ok ↔ WellFormed bytes) ∧
          (∀ cs, Spells bytes cs →
            ∃ content, result.content = some content ∧ Unified cs content.toList) ∧
          (∀ s : String, bytes = Text.Utf8.encode s.toList →
            ∃ content, result.content = some content ∧ Unified s.toList content.toList) ∧
          (∀ content, result.content = some content → 0x0D ∉ bytes →
            Text.Utf8.encode content.toList = bytes) ∧
          (¬ WellFormed bytes → result.status = .failed ∧ result.fault = some .undecodable) := by
  refine ⟨_, readText_default hpath, ?_, ?_⟩
  · split
    · exact ReadResult.classified_ofFault _
    · exact ReadResult.classified_ofBytes _ _
  intro l bytes hl hnode
  rw [readBytes_of_locate hl hnode]
  by_cases hwell : WellFormed bytes
  · have hwell' := hwell
    obtain ⟨cs, hcs⟩ := hwell'
    have hunified : Unified cs (String.ofList (Text.unifyLineEnds cs)).toList := by
      rw [String.toList_ofList]
      exact Text.unified_unifyLineEnds cs
    have hunique : ∀ cs', Spells bytes cs' → cs' = cs := fun cs' hcs' =>
      Option.some.inj ((Text.Utf8.decode_eq_some_iff.mpr hcs').symm.trans
        (Text.Utf8.decode_eq_some_iff.mpr hcs))
    simp only [ReadResult.ofBytes_of_spells hcs]
    refine ⟨iff_of_true rfl hwell, fun cs' hcs' => ⟨_, rfl, ?_⟩, fun s hs => ⟨_, rfl, ?_⟩,
      fun content hcontent hreturn => ?_, fun hill => absurd hwell hill⟩
    · exact hunique cs' hcs' ▸ hunified
    · exact hunique s.toList (Text.Utf8.spells_iff.mpr hs) ▸ hunified
    · obtain rfl := Option.some.inj hcontent
      have hbytes : bytes = Text.Utf8.encode cs := Text.Utf8.spells_iff.mp hcs
      rw [hbytes] at hreturn ⊢
      exact encode_of_not_mem hunified hreturn
  · have hnone : ∀ cs, ¬ Spells bytes cs := fun cs hcs => hwell ⟨cs, hcs⟩
    simp only [ReadResult.ofBytes_of_not_wellFormed hwell]
    refine ⟨iff_of_false (by decide) hwell, fun cs hcs => absurd hcs (hnone cs), fun s hs => ?_,
      fun content hcontent => absurd hcontent (by simp [ReadResult.ofFault]), fun _ => ⟨rfl, rfl⟩⟩
    exact absurd (Text.Utf8.spells_iff.mpr hs) (hnone s.toList)

/-- A file with three line ends behind a link, and one whose bytes hold a null character in two
bytes. -/
theorem readText_wellFormed_link :
    let t : FileTree := ⟨[{ location := ["a".toList], node := .link "d/../b".toList },
      { location := ["d".toList], node := .directory },
      { location := ["b".toList],
        node := .file [0xC3, 0xA9, 0x0D, 0x0D, 0x0A, 0x0A, 0xF0, 0x9F, 0x8E, 0x89] },
      { location := ["c".toList], node := .file [0x61, 0xC0, 0x80] }]⟩
    '\x00' ∉ "./a".toList ∧ '\x00' ∉ "c/".toList ∧
      (∃ result, t.readText [] "./a" defaultEncoding = .ok result ∧
        result.status = .ok ∧ result.content = some "é\n\n\n🎉") ∧
      ∃ result, t.readText [] "c/" defaultEncoding = .ok result ∧
        result.status = .failed ∧ result.fault = some .undecodable := by
  intro t
  have ha : '\x00' ∉ "./a".toList := by decide
  have hc : '\x00' ∉ "c/".toList := by decide
  refine ⟨ha, hc, ?_, ?_⟩
  · obtain ⟨result, hread, -, hfile⟩ := readText_wellFormed t [] "./a" ha
    obtain ⟨hok, hspells, -⟩ := hfile ["b".toList] _ (by cbv) rfl
    have hbytes : Spells [0xC3, 0xA9, 0x0D, 0x0D, 0x0A, 0x0A, 0xF0, 0x9F, 0x8E, 0x89]
        ['é', '\r', '\r', '\n', '\n', '🎉'] := Text.Utf8.spells_iff.mpr (by decide)
    obtain ⟨content, hcontent, hunified⟩ := hspells _ hbytes
    refine ⟨result, hread, hok.mpr ⟨_, hbytes⟩, ?_⟩
    rw [hcontent, ← String.ofList_toList (s := content), Text.unified_iff.mp hunified]
    decide
  · obtain ⟨result, hread, -, hfile⟩ := readText_wellFormed t [] "c/" hc
    obtain ⟨-, -, -, -, hill⟩ := hfile ["c".toList] _ (by cbv) rfl
    exact ⟨result, hread, hill (Text.Utf8.decode_eq_none_iff.mp (by decide))⟩

end FileTree

end PromptShelf
