import RowModel.Proofs.Declaration
import RowModel.Proofs.Document.Holding
import RowModel.Proofs.Document.Reading

/-!
Rules for a SQL type that documents declare with the key `null`. Written plain, that key is no text
but null itself, and the entry is not found: the rule is then for columns that are not nullable,
whatever the entry says. Only a key in quotes is the name that rules look for. Main result:
`Settings.parse_nullEntry`, for every document and every place of the entry in it.
-/
namespace RowModel

open Yaml

namespace Yaml.Node

/-- A scalar without a tag, plain or in quotes. -/
def IsWritten (plain : Bool) (word : String) (x : Node) : Prop :=
  ∃ n, x = scalar n (scalarTag none plain word.toList) word.toList

/-- An entry with a target and a SQL type in quotes that is marked as nullable, in any order. Its
last key is plain or in quotes. -/
def IsNullEntry (plain : Bool) (goType sqlType : String) (x : Node) : Prop :=
  ∃ n es k₁ v₁ k₂ v₂ k₃ v₃, x = mapping n .map es ∧ es.Perm [(k₁, v₁), (k₂, v₂), (k₃, v₃)] ∧
    k₁.IsWritten true "go_type" ∧ v₁.IsWritten false goType ∧
    k₂.IsWritten true "postgres_type" ∧ v₂.IsWritten false sqlType ∧
    k₃.IsWritten plain "null" ∧ v₃.IsWritten true "true"

variable {name word : String} {x k v : Node} {es rest : List (Node × Node)}

/-- In quotes every word is a text. -/
theorem IsWritten.spells (h : x.IsWritten false word) : x.Spells word := h

theorem IsWritten.spells_of_plain (h : x.IsWritten true word)
    (ht : Tag.implicit word.toList = .str) : x.Spells word := by
  obtain ⟨n, rfl⟩ := h
  exact ⟨n, by rw [← ht]; rfl⟩

theorem Spells.tag_ne_merge (h : x.Spells word) : x.tag ≠ .merge := by
  obtain ⟨n, rfl⟩ := h
  exact nofun

def nullEntryNames (plain : Bool) : List String :=
  ["go_type", "postgres_type"] ++ if plain then [] else ["null"]

variable [Machine]

theorem scalar?_str (m : Merges) (n : Nat) (s : List Char) :
    (scalar n .str s).scalar? m = .ok (.str (String.ofList s)) := rfl

theorem scalar?_null (m : Merges) (n : Nat) (s : List Char) :
    (scalar n .null s).scalar? m = .ok .null := rfl

theorem scalar?_true (m : Merges) (n : Nat) :
    (scalar n .bool "true".toList).scalar? m = .ok (.bool true) := by
  have hword : boolValues.lookup (String.ofList ("true".toList.map Char.toLower)) = some true := by
    decide +kernel
  change boolValue "true".toList = _
  rw [boolValue, hword]

/-- A scalar that spells a text may be no other one. -/
theorem Spells.maySpell_iff (h : x.Spells word) : x.MaySpell name ↔ name = word := by
  obtain ⟨n, rfl⟩ := h
  constructor
  · rintro ⟨m, hm⟩
    rw [scalar?_str, String.ofList_toList] at hm
    cases hm
    rfl
  · rintro rfl
    exact ⟨.empty, by rw [scalar?_str, String.ofList_toList]⟩

/-- A plain word for null may be no text. -/
theorem IsWritten.not_maySpell_of_null (h : x.IsWritten true word)
    (ht : Tag.implicit word.toList = .null) : ¬x.MaySpell name := by
  obtain ⟨n, rfl⟩ := h
  simp [MaySpell, scalarTag, ht, scalar?_null]

/-- The key `null` is no merge key, and a name only in quotes. -/
theorem IsWritten.null_spells {plain : Bool} (h : x.IsWritten plain "null") :
    x.tag ≠ .merge ∧ ∀ {name}, x.MaySpell name → plain = false ∧ name = "null" := by
  cases plain with
  | true =>
    have ht : Tag.implicit "null".toList = .null := by decide +kernel
    refine ⟨?_, fun hname => absurd hname (h.not_maySpell_of_null ht)⟩
    obtain ⟨n, rfl⟩ := h
    exact ne_of_eq_of_ne ht (by decide)
  | false => exact ⟨h.spells.tag_ne_merge, fun hname => ⟨rfl, h.spells.maySpell_iff.mp hname⟩⟩

/-- An entry counts when no other key may be its name. -/
theorem holds_of_perm (hp : es.Perm ((k, v) :: rest)) (hk : k.Spells name)
    (hrest : ∀ e ∈ rest, ¬e.1.MaySpell name) : Holds name v es := by
  obtain ⟨before, after, rfl⟩ := List.append_of_mem (hp.mem_iff.mpr List.mem_cons_self)
  have hothers : (before ++ after).Perm rest := (List.perm_middle.symm.trans hp).cons_inv
  exact ⟨before, k, after, rfl, hk, fun e he =>
    hrest e (hothers.mem_iff.mp (List.mem_append_right before he))⟩

theorem IsNullEntry.holds {plain : Bool} {goType sqlType : String}
    (h : x.IsNullEntry plain goType sqlType) :
    ∃ n es v₁ v₂ v₃, x = mapping n .map es ∧ (∀ e ∈ es, e.1.tag ≠ .merge) ∧
      (Holds "go_type" v₁ es ∧ v₁.Spells goType) ∧
      (Holds "postgres_type" v₂ es ∧ v₂.Spells sqlType) ∧
      (plain = false → Holds "null" v₃ es ∧ v₃.IsWritten true "true") ∧
      ∀ name ∉ nullEntryNames plain, ∀ e ∈ es, ¬e.1.MaySpell name := by
  obtain ⟨n, es, k₁, v₁, k₂, v₂, k₃, v₃, rfl, hp, hk₁, hv₁, hk₂, hv₂, hk₃, hv₃⟩ := h
  have hk₁ : k₁.Spells "go_type" := hk₁.spells_of_plain (by decide +kernel)
  have hk₂ : k₂.Spells "postgres_type" := hk₂.spells_of_plain (by decide +kernel)
  obtain ⟨hmerge, hnull⟩ := hk₃.null_spells
  have hcases : ∀ {e}, e ∈ es → e = (k₁, v₁) ∨ e = (k₂, v₂) ∨ e = (k₃, v₃) := by
    intro e he
    simpa using hp.mem_iff.mp he
  refine ⟨n, es, v₁, v₂, v₃, rfl, ?_, ⟨?_, hv₁⟩, ⟨?_, hv₂⟩, fun hquoted => ⟨?_, hv₃⟩, ?_⟩
  · intro e he
    rcases hcases he with rfl | rfl | rfl
    · exact hk₁.tag_ne_merge
    · exact hk₂.tag_ne_merge
    · exact hmerge
  · refine holds_of_perm hp hk₁ (List.forall_mem_cons.mpr ⟨?_, List.forall_mem_singleton.mpr ?_⟩)
    · exact fun h => absurd (hk₂.maySpell_iff.mp h) (by decide)
    · exact fun h => absurd (hnull h).2 (by decide)
  · refine holds_of_perm (hp.trans (.swap _ _ _)) hk₂
      (List.forall_mem_cons.mpr ⟨?_, List.forall_mem_singleton.mpr ?_⟩)
    · exact fun h => absurd (hk₁.maySpell_iff.mp h) (by decide)
    · exact fun h => absurd (hnull h).2 (by decide)
  · subst hquoted
    refine holds_of_perm (hp.trans (List.perm_append_singleton (k₃, v₃) [(k₁, v₁), (k₂, v₂)]))
      hk₃.spells (List.forall_mem_cons.mpr ⟨?_, List.forall_mem_singleton.mpr ?_⟩)
    · exact fun h => absurd (hk₁.maySpell_iff.mp h) (by decide)
    · exact fun h => absurd (hk₂.maySpell_iff.mp h) (by decide)
  · intro name hname e he hmay
    refine hname (List.mem_append.mpr ?_)
    rcases hcases he with rfl | rfl | rfl
    · rw [hk₁.maySpell_iff.mp hmay]
      exact .inl (by decide)
    · rw [hk₂.maySpell_iff.mp hmay]
      exact .inl (by decide)
    · obtain ⟨rfl, rfl⟩ := hnull hmay
      exact .inr (by decide)

end Yaml.Node

namespace Yaml.Draft

open Node

variable [Machine] {root x : Node} {d : Draft}

theorem Sound.value_of_true (hd : d.Sound root [] 0) (hroot : root.Numbered) (hx : Within root x)
    (hmet : x.number ∈ d.met) (h : x.IsWritten true "true") : d.value x = .bool true := by
  have htag : scalarTag none true "true".toList = .bool := by decide +kernel
  obtain ⟨n, rfl⟩ := h
  rw [htag] at hx ⊢
  obtain ⟨m, hm⟩ := hd.value_scalar hroot hx hmet rfl
  rw [scalar?_true] at hm
  exact (Except.ok.inj hm).symm

/-- The target and the SQL type are found in the value of the entry, the mark only with quotes. -/
theorem Sound.value_of_nullEntry (hd : d.Sound root [] 0) (hroot : root.Numbered)
    (hx : Within root x) (hmet : x.number ∈ d.met) {plain : Bool} {goType sqlType : String}
    (h : x.IsNullEntry plain goType sqlType) :
    ∃ entries, d.value x = .map entries ∧
      Value.find? "go_type" entries = some (.str goType) ∧
      Value.find? "postgres_type" entries = some (.str sqlType) ∧
      (plain = false → Value.find? "null" entries = some (.bool true)) ∧
      ∀ name ∉ nullEntryNames plain, Value.find? name entries = none := by
  obtain ⟨n, es, v₁, v₂, v₃, rfl, hplain, ⟨hgo, hv₁⟩, ⟨hsql, hv₂⟩, hnull, hnone⟩ := h.holds
  obtain ⟨before, hvalue, hown, hbefore⟩ := hd.value_eq_map hroot hx hmet
  rw [hbefore hplain, List.nil_append, ownEntries_of_no_merge hplain] at hvalue
  rw [ownEntries_of_no_merge hplain] at hown
  have hheld : ∀ {name v}, Holds name v es →
      Value.find? name (d.mapEntries es) = some (d.value v) ∧ Within root v ∧ v.number ∈ d.met := by
    intro name v hv
    refine ⟨hd.find?_of_holds hroot hown hv [], ?_⟩
    obtain ⟨front, k, after, rfl, -, -⟩ := hv
    exact hown v (mem_entryParts.mpr ⟨(k, v), by simp, .inr rfl⟩)
  obtain ⟨hfind₁, hw₁, hm₁⟩ := hheld hgo
  obtain ⟨hfind₂, hw₂, hm₂⟩ := hheld hsql
  refine ⟨d.mapEntries es, hvalue, ?_, ?_, fun hquoted => ?_, fun name hname => ?_⟩
  · rw [hfind₁, hd.value_of_spells hroot hw₁ hm₁ hv₁]
  · rw [hfind₂, hd.value_of_spells hroot hw₂ hm₂ hv₂]
  · obtain ⟨hnull, htrue⟩ := hnull hquoted
    obtain ⟨hfind₃, hw₃, hm₃⟩ := hheld hnull
    rw [hfind₃, hd.value_of_true hroot hw₃ hm₃ htrue]
  · exact hd.find?_of_absent hroot hown (hnone name hname)

end Yaml.Draft

/-- Where a rule is declared: at a place among those for all packages or among those of a package. -/
inductive RulePlace where
  | shared (i : Nat)
  | inPackage (package i : Nat)

namespace RulePlace

def raw? (entries : List (Value × Value)) : RulePlace → Option Value
  | shared i => (Value.map entries).itemAt? "overrides" i
  | inPackage j i => ((Value.map entries).itemAt? "packages" j).bind (Value.itemAt? "overrides" i)

def rule? (s : Settings) : RulePlace → Option Rule
  | shared i => s.overrides[i]?
  | inPackage j i => s.packages[j]?.bind fun p => p.overrides[i]?

def IsNode [Machine] (root x : Node) : RulePlace → Prop
  | shared i => root.HasItem "overrides" i x
  | inPackage j i => ∃ p, root.HasItem "packages" j p ∧ p.HasItem "overrides" i x

end RulePlace

/-- The raw value at the place of a node is the value of the node. -/
theorem RulePlace.raw?_of_isNode [Machine] {root x : Node} {d : Draft} (hd : d.Sound root [] 0)
    (hroot : root.Numbered) (hmet : root.number ∈ d.met) {entries : List (Value × Value)}
    (hvalue : d.value root = .map entries) {place : RulePlace} (h : place.IsNode root x) :
    place.raw? entries = some (d.value x) ∧ root.Within x ∧ x.number ∈ d.met := by
  cases place with
  | shared i =>
    obtain ⟨hitem, hx⟩ := hd.value_of_hasItem hroot .root hmet h
    exact ⟨by rw [raw?, ← hvalue, hitem], hx⟩
  | inPackage j i =>
    obtain ⟨p, hp, hx⟩ := h
    obtain ⟨hpackage, hpw, hpm⟩ := hd.value_of_hasItem hroot .root hmet hp
    obtain ⟨hitem, hx⟩ := hd.value_of_hasItem hroot hpw hpm hx
    exact ⟨by rw [raw?, ← hvalue, hpackage, Option.bind_some, hitem], hx⟩

theorem items?_of_find? {name : String} {entries : List (Value × Value)} {items : List Value}
    (h : Value.find? name entries = some (.list items)) :
    (Value.get name entries).items? = some items := by
  rw [Value.get, h]
  rfl

section

variable [Machine]

/-- Settings have the rule that an entry declares at the place of the entry. -/
theorem RulePlace.rule?_of_declaredBy {entries : List (Value × Value)} {s : Settings}
    (h : Settings.DeclaredBy entries s) {place : RulePlace} {raw : Value}
    (hraw : place.raw? entries = some raw) :
    ∃ package rule, place.rule? s = some rule ∧ Rule.parse raw package = .ok rule := by
  cases place with
  | shared i =>
    have hraw : (Value.map entries).itemAt? "overrides" i = some raw := hraw
    obtain ⟨es, items, he, hfind, hitem⟩ := Value.itemAt?_eq_some hraw
    cases he
    obtain ⟨raws, hraws, hrules⟩ := h.overrides
    cases (items?_of_find? hfind).symm.trans hraws
    obtain ⟨rule, hrule, hparse, -⟩ := exists_getElem?_of_forall₂ hrules hitem
    exact ⟨none, rule, hrule, hparse⟩
  | inPackage j i =>
    obtain ⟨rawPackage, hpackage, hraw⟩ := Option.bind_eq_some_iff.mp hraw
    obtain ⟨es, packages, he, hfind, hitem⟩ := Value.itemAt?_eq_some hpackage
    cases he
    obtain ⟨raws, hraws, hpackages⟩ := h.packages
    cases (items?_of_find? hfind).symm.trans hraws
    obtain ⟨p, hp, es', raws', rfl, -, -, hraws', hrules⟩ :=
      exists_getElem?_of_forall₂ hpackages hitem
    obtain ⟨es, items, he, hfind, hitem⟩ := Value.itemAt?_eq_some hraw
    cases he
    cases (items?_of_find? hfind).symm.trans hraws'
    obtain ⟨rule, hrule, hparse, -⟩ := exists_getElem?_of_forall₂ hrules hitem
    exact ⟨some p.name, rule, by rw [rule?, hp, Option.bind_some, hrule], hparse⟩

/-- An entry with a target and a SQL type alone; `null` says whether it is for nullable columns. -/
theorem Rule.parse_of_typeEntry {entries : List (Value × Value)} {goType sqlType : String}
    {t : Target} (hgo : Value.find? "go_type" entries = some (.str goType))
    (hsql : Value.find? "postgres_type" entries = some (.str sqlType))
    (hcolumn : Value.find? "column" entries = none) (harray : Value.find? "array" entries = none)
    (ht : Target.parse goType none = .ok t) (hne : sqlType ≠ "") (package : Option String) :
    Rule.parse (.map entries) package =
      .ok (.type sqlType (Value.get "null" entries).truthy t) := by
  have hgoType : goType ≠ "" := by
    rintro rfl
    have hnone : Target.parse? (Text.strip "".toList) = none := by decide
    rw [Target.parse_eq_ok_iff, hnone] at ht
    cases ht
  have htarget : Target.parse goType package = .ok t :=
    Target.parse_eq_ok_iff.mpr (Target.parse_eq_ok_iff.mp ht)
  have hcolumn' : Value.get "column" entries = .null := by rw [Value.get, hcolumn]; rfl
  have hsql' : Value.get "postgres_type" entries = .str sqlType := by rw [Value.get, hsql]; rfl
  have hgo' : Value.get "go_type" entries = .str goType := by rw [Value.get, hgo]; rfl
  have hentry : TypeEntry package entries sqlType := by
    refine ⟨by rw [hcolumn']; rfl, ?_, harray, by rw [hsql']; rfl⟩
    rw [hsql']
    simpa [Value.truthy] using hne
  rw [parse_of_declares ⟨rfl, hgo', hgoType⟩, ofEntries_of_typeEntry htarget hentry]

def nullableEntry (goType sqlType : String) : Value :=
  .map [(.str "go_type", .str goType), (.str "postgres_type", .str sqlType), (.str "null", .bool true)]

theorem build_of_loadDocument {text : String} {entries : List (Value × Value)}
    (h : loadDocument text = .ok entries) {root : Node}
    (hread : readNode text.toList = .ok (some root)) : root.build = .ok (.map entries) := by
  have hload := (loadWith_eq_ok_iff.mp h).1
  rwa [Yaml.load, hread] at hload

/-- Wherever a document declares such an entry, its rule is for nullable columns if and only if the
last key is in quotes. With the plain key it is for the others, unlike the rule of the mapping. -/
theorem Settings.parse_nullEntry {text : String} {root x : Node} {entries : List (Value × Value)}
    {place : RulePlace} {plain : Bool} {goType sqlType : String} {t : Target}
    (hread : readNode text.toList = .ok (some root)) (hload : loadDocument text = .ok entries)
    (hplace : place.IsNode root x) (hx : x.IsNullEntry plain goType sqlType)
    (ht : Target.parse goType none = .ok t) (hne : sqlType ≠ "") :
    (∃ raw, place.raw? entries = some raw ∧ ∀ package,
      Rule.parse raw package = .ok (.type sqlType (!plain) t) ∧
      Rule.parse (nullableEntry goType sqlType) package = .ok (.type sqlType true t) ∧
      (Rule.parse raw package = Rule.parse (nullableEntry goType sqlType) package ↔
        plain = false)) ∧
    ∀ s, Settings.parse text = .ok s → place.rule? s = some (.type sqlType (!plain) t) := by
  have hroot := Node.numbered_of_readNode hread
  obtain ⟨d, hd, hmet, hvalue⟩ := Node.build_eq_ok hroot (build_of_loadDocument hload hread)
  obtain ⟨hraw, hxw, hxm⟩ := RulePlace.raw?_of_isNode hd hroot hmet hvalue.symm hplace
  obtain ⟨es, hes, hgo, hsql, hquoted, hnone⟩ := hd.value_of_nullEntry hroot hxw hxm hx
  have hnull : (Value.get "null" es).truthy = !plain := by
    cases plain with
    | true =>
      rw [Value.get, hnone "null" (by decide)]
      rfl
    | false =>
      rw [Value.get, hquoted rfl]
      rfl
  have hrule : ∀ package, Rule.parse (d.value x) package = .ok (.type sqlType (!plain) t) := by
    intro package
    rw [hes, Rule.parse_of_typeEntry hgo hsql (hnone _ ?_) (hnone _ ?_) ht hne, hnull]
    · cases plain <;> decide
    · cases plain <;> decide
  have hmapping : ∀ package,
      Rule.parse (nullableEntry goType sqlType) package = .ok (.type sqlType true t) :=
    Rule.parse_of_typeEntry rfl rfl rfl rfl ht hne
  refine ⟨⟨d.value x, hraw, fun package => ⟨hrule package, hmapping package, ?_⟩⟩, ?_⟩
  · rw [hrule, hmapping]
    simp
  · intro s hs
    have hloaded : loadWith Yaml.load text = .ok entries := hload
    rw [Settings.parse, Settings.parseWith, hloaded] at hs
    obtain ⟨package, rule, hfound, hparse⟩ :=
      RulePlace.rule?_of_declaredBy (ofEntries_declared hs) hraw
    rw [hfound, ← Except.ok.inj ((hrule package).symm.trans hparse)]

end

/-- One rule for nullable columns, as it is usually written. -/
def nullDocument : String :=
  "version: 1\noverrides:\n- go_type: \"a.com/p.T\"\n  postgres_type: \"text\"\n  null: true\n"

def nullDocumentEntry : Node :=
  .mapping 10 .map
    [(.scalar 4 .str "go_type".toList, .scalar 5 .str "a.com/p.T".toList),
     (.scalar 6 .str "postgres_type".toList, .scalar 7 .str "text".toList),
     (.scalar 8 .null "null".toList, .scalar 9 .bool "true".toList)]

def nullDocumentRoot : Node :=
  .mapping 12 .map
    [(.scalar 1 .str "version".toList, .scalar 2 .int "1".toList),
     (.scalar 3 .str "overrides".toList, .sequence 11 .seq [nullDocumentEntry])]

theorem parse_nullDocument :
    ∃ s entries raw, Settings.parse nullDocument = .ok s ∧ loadDocument nullDocument = .ok entries ∧
      (RulePlace.shared 0).raw? entries = some raw ∧
      Rule.parse raw none = .ok (.type "text" false ⟨"a.com/p", "p.T"⟩) ∧
      Rule.parse (nullableEntry "a.com/p.T" "text") none =
        .ok (.type "text" true ⟨"a.com/p", "p.T"⟩) ∧
      (RulePlace.shared 0).rule? s = some (.type "text" false ⟨"a.com/p", "p.T"⟩) := by
  have hrun : (readNode nullDocument.toList).toOption.any (· == some nullDocumentRoot) = true := by
    decide +kernel
  obtain ⟨root, hread, heq⟩ := exists_eq_ok_of_any hrun
  rw [beq_iff_eq] at heq
  subst heq
  have hparses : (Settings.parse nullDocument).toOption.any (fun _ => true) = true := by
    decide +kernel
  obtain ⟨s, hs, -⟩ := exists_eq_ok_of_any hparses
  have hload : ∃ entries, loadDocument nullDocument = .ok entries := by
    rw [Settings.parse, Settings.parseWith] at hs
    split at hs
    · cases hs
    · next entries hload => exact ⟨entries, hload⟩
  obtain ⟨entries, hload⟩ := hload
  have hholds : Node.Holds "overrides" (.sequence 11 .seq [nullDocumentEntry])
      [(.scalar 1 .str "version".toList, .scalar 2 .int "1".toList),
       (.scalar 3 .str "overrides".toList, .sequence 11 .seq [nullDocumentEntry])] :=
    ⟨[_], .scalar 3 .str "overrides".toList, [], rfl, ⟨3, rfl⟩,
      List.forall_mem_nil _⟩
  have hplace : (RulePlace.shared 0).IsNode nullDocumentRoot nullDocumentEntry :=
    ⟨12, _, 11, [nullDocumentEntry], rfl, hholds, rfl⟩
  have hentry : nullDocumentEntry.IsNullEntry true "a.com/p.T" "text" := by
    refine ⟨10, _, _, _, _, _, _, _, rfl, .refl _, ⟨4, ?_⟩, ⟨5, rfl⟩, ⟨6, ?_⟩, ⟨7, rfl⟩, ⟨8, ?_⟩,
      ⟨9, ?_⟩⟩ <;> decide +kernel
  have ht : Target.parse "a.com/p.T" none = .ok ⟨"a.com/p", "p.T"⟩ := by decide +kernel
  obtain ⟨⟨raw, hraw, hrules⟩, hsettings⟩ :=
    Settings.parse_nullEntry hread hload hplace hentry ht (by decide)
  exact ⟨s, entries, raw, hs, hload, hraw, (hrules none).1, (hrules none).2.1, hsettings s hs⟩

/-- The rule of the document is for columns that are not nullable, that of the same entry for those
that are. -/
theorem nullDocument_rule_differs :
    (Settings.parse nullDocument).toOption.map Settings.overrides =
        some [.type "text" false ⟨"a.com/p", "p.T"⟩] ∧
      (Rule.parse (nullableEntry "a.com/p.T" "text") none).toOption =
        some (.type "text" true ⟨"a.com/p", "p.T"⟩) := by
  decide +kernel

end RowModel
