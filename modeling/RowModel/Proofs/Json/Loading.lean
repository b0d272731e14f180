import RowModel.Proofs.Declaration
import RowModel.Proofs.Json.Alike
import RowModel.Proofs.Json.Grammar
import RowModel.Proofs.Json.Values

/-!
Settings that are written in JSON. A text for an object with a supported version is loaded as what it
denotes exactly if the reader of documents can read it and takes every part that counts for what it
denotes (`loadDocument_json_iff`).
-/
namespace RowModel

open Value (find?)

namespace Json

variable {doc : Document} {es : List (Value × Value)}

theorem Tree.isObject_of_value {t : Tree} (h : t.value = .map es) : t.isObject = true := by
  match t with
  | .atom .null | .atom (.bool _) | .string _ | .emptyArray _ | .array _ => cases h
  | .atom (.number n) => exact absurd h (n.value_ne_map es)
  | .emptyObject _ | .object _ => rfl

variable [Machine]

/-- A text for an object is read as that object exactly if it can be read and is alike. -/
theorem Document.load_eq_value_iff (hroot : doc.root.value = .map es) :
    Yaml.load (String.ofList (Text.stored doc.text)) = .ok (.map es) ↔
      doc.Readable ∧ doc.root.Alike := by
  have hkeyed (h : doc.Readable) : ∀ p ∈ doc.root.pieces, p.isKeyed = true :=
    fun p hp => h.keyed p (by simp [Document.pieces, hp])
  rw [doc.load_stored_iff (Tree.isObject_of_value hroot), ← hroot]
  exact and_congr_right fun h => doc.root.read_eq_iff (hkeyed h)

end Json

section

variable [Machine]

theorem Value.wording_of_version {es : List (Value × Value)}
    (hv : find? "version" es = some (.int 1) ∨ find? "version" es = some (.str "1"))
    (occasion : Occasion) : (Value.get "version" es).wording occasion = .ok "1" := by
  have hone : Value.wholeText? 1 = some "1" := by decide +kernel
  rw [Value.get]
  rcases hv with hv | hv <;> rw [hv]
  · exact Value.worded_eq_ok.mpr ⟨rfl, hone⟩
  · exact Value.worded_eq_ok.mpr ⟨rfl, rfl⟩

/-- A JSON text for an object with a supported version is loaded as that object exactly if it can be
read and is alike, and then gives the settings that the object declares. -/
theorem loadDocument_json_iff {s : List Char} {es : List (Value × Value)}
    (hs : Json.read? s = some (.map es))
    (hv : find? "version" es = some (.int 1) ∨ find? "version" es = some (.str "1")) :
    (∃ doc : Json.Document, doc.text = s) ∧
      ∀ doc : Json.Document, doc.text = s →
        doc.root.value = .map es ∧
        (loadDocument (String.ofList (Text.stored s)) = .ok es ↔ doc.Readable ∧ doc.root.Alike) ∧
        (doc.Readable ∧ doc.root.Alike →
          Settings.parse (String.ofList (Text.stored s)) = Settings.ofEntries es) := by
  obtain ⟨some_doc, hsome, -⟩ := Json.read?_eq_some_iff.mp hs
  refine ⟨⟨some_doc, hsome⟩, ?_⟩
  rintro doc rfl
  have hroot : doc.root.value = .map es := by
    rw [Json.read?_eq_some_iff.mpr ⟨doc, rfl, rfl⟩] at hs
    exact Option.some.inj hs
  have hload : loadDocument (String.ofList (Text.stored doc.text)) = .ok es ↔
      doc.Readable ∧ doc.root.Alike :=
    loadWith_eq_ok_iff.trans
      ((and_iff_left (Value.wording_of_version hv .version)).trans (Json.Document.load_eq_value_iff hroot))
  refine ⟨hroot, hload, fun h => ?_⟩
  have hloaded : loadWith Yaml.load (String.ofList (Text.stored doc.text)) = .ok es := hload.mpr h
  rw [Settings.parse, Settings.parseWith, hloaded]

end

namespace Json

def label (before : Blanks) (s : List Char)
    (h : s.all (fun c => 0x20 ≤ c.toNat && c != '"' && c != '\\') = true) : Label :=
  ⟨before, s.pmap Part.char fun c hc => by simpa [and_assoc] using List.all_eq_true.mp h c hc,
    ⟨[], nofun⟩⟩

def one (exponent : Option Exponent) : Tree :=
  .atom (.number ⟨false, ⟨['1'], nofun, by simp⟩, none, exponent, by simp⟩)

/-- The text `{"version": 1}` with one blank before the name. -/
def versionDocument (c : Char) (h : isBlank c = true) : Document :=
  ⟨⟨[], nofun⟩, .object (.last
    (label ⟨[c], by simpa using h⟩ "version".toList (by decide +kernel)) ⟨[' '], by simp [isBlank]⟩
    (one none) ⟨[], nofun⟩), ⟨[], nofun⟩⟩

/-- The text `{"version": 1, "a": 1e3}`. -/
def exponentDocument : Document :=
  ⟨⟨[], nofun⟩, .object
    (.more (label ⟨[], nofun⟩ "version".toList (by decide +kernel)) ⟨[' '], by simp [isBlank]⟩
      (one none) ⟨[], nofun⟩
    (.last (label ⟨[' '], by simp [isBlank]⟩ "a".toList (by decide +kernel))
      ⟨[' '], by simp [isBlank]⟩ (one (some ⟨false, none, ⟨['3'], nofun, by simp⟩⟩)) ⟨[], nofun⟩)),
    ⟨[], nofun⟩⟩

example : (versionDocument '\t' rfl).text = "\x7b\t\"version\": 1\x7d".toList := by decide +kernel

example : exponentDocument.text = "\x7b\"version\": 1, \"a\": 1e3\x7d".toList := by decide +kernel

end Json

open Json (versionDocument exponentDocument)

theorem loadDocument_versionDocument :
    Json.read? (versionDocument ' ' rfl).text = some (.map [(.str "version", .int 1)]) ∧
      find? "version" [(.str "version", .int 1)] = some (.int 1) ∧
      loadDocument (String.ofList (Text.stored (versionDocument ' ' rfl).text)) =
        .ok [(.str "version", .int 1)] := by
  have hs : Json.read? (versionDocument ' ' rfl).text = some (.map [(.str "version", .int 1)]) :=
    Json.read?_eq_some_iff.mpr ⟨_, rfl, rfl⟩
  have hreadable : (versionDocument ' ' rfl).Readable :=
    ⟨⟨List.all_eq_true.mp (by decide +kernel), by decide +kernel, by decide +kernel,
      by decide +kernel⟩, by decide +kernel⟩
  have halike : (versionDocument ' ' rfl).root.Alike :=
    ⟨⟨by decide +kernel, by decide +kernel, by decide +kernel⟩, rfl⟩
  obtain ⟨-, hdoc⟩ := loadDocument_json_iff hs (.inl rfl)
  exact ⟨hs, rfl, (hdoc _ rfl).2.1.mpr ⟨hreadable, halike⟩⟩

/-- A tab keeps the whole text from being loaded, and a number with an exponent but without a point is
loaded as a text. -/
theorem json_otherwise_loaded :
    (Json.read? (versionDocument '\t' rfl).text = some (.map [(.str "version", .int 1)]) ∧
      (match loadDocument (String.ofList (Text.stored (versionDocument '\t' rfl).text)) with
      | .ok _ => none
      | .error e => some e) = some (.configuration .unreadableDocument none none)) ∧
    ∃ x, Json.read? exponentDocument.text =
        some (.map [(.str "version", .int 1), (.str "a", .float x)]) ∧
      loadDocument (String.ofList (Text.stored exponentDocument.text)) =
        .ok [(.str "version", .int 1), (.str "a", .str "1e3")] := by
  refine ⟨⟨Json.read?_eq_some_iff.mpr ⟨_, rfl, rfl⟩, by decide +kernel⟩, _,
    Json.read?_eq_some_iff.mpr ⟨_, rfl, rfl⟩, ?_⟩
  have hreadable : exponentDocument.Readable :=
    ⟨⟨List.all_eq_true.mp (by decide +kernel), by decide +kernel, by decide +kernel,
      by decide +kernel⟩, by decide +kernel⟩
  refine loadWith_eq_ok_iff.mpr ⟨?_, Value.wording_of_version (.inl rfl) .version⟩
  exact (exponentDocument.load_stored_iff rfl _).mpr ⟨hreadable, rfl⟩

end RowModel
