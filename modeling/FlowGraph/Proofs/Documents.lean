import FlowGraph.Proofs.Listing

/-!
Which documents are listings. What may stand under a name of a document or record, or be left out
there, is a relation to what is meant by it, and a record describes an instruction when all of
these hold. A document is read just when it names a method and each of its records describes an
instruction at its position. Every other document is refused for one fault: that of the document
itself if it has one, and else that of the first record which describes nothing, by the first
check that this record fails.
-/
namespace FlowGraph

theorem Kind.ofName?_eq_some_iff {s : String} {k : Kind} :
    Kind.ofName? s = some k ↔ s = k.name := by
  constructor
  · intro h
    have hname := List.find?_some h
    exact (eq_of_beq hname).symm
  · rintro rfl
    cases k <;> rfl

/-- Rules for results and for errors that both hold of a computation, and of which one always
applies, say exactly what it comes to. -/
theorem exact_of_total {ε α : Type} {x : Except ε α} {Result : α → Prop} {Fault : ε → Prop}
    (hresult : ∀ a, Result a → x = .ok a) (hfault : ∀ e, Fault e → x = .error e)
    (htotal : (∃ a, Result a) ∨ ∃ e, Fault e) :
    (∀ a, x = .ok a ↔ Result a) ∧ ∀ e, x = .error e ↔ Fault e := by
  rcases htotal with ⟨a, ha⟩ | ⟨e, he⟩
  · obtain rfl := hresult a ha
    refine ⟨fun b => ⟨?_, hresult b⟩, fun e => ⟨nofun, hfault e⟩⟩
    intro hb
    rwa [← Except.ok.inj hb]
  · obtain rfl := hfault e he
    refine ⟨fun b => ⟨nofun, hresult b⟩, fun f => ⟨?_, hfault f⟩⟩
    intro hf
    rwa [← Except.error.inj hf]

namespace Listing

def Spells (written : Value) (kind : Kind) : Prop := Text.lower written.display = kind.name

/-- What may stand for the index of a record at a position. Zero and one may be written as truth
values. -/
inductive DeclaresIndex (position : Nat) : Option Value → Index → Prop
  | absent : DeclaresIndex position none (.number position)
  | number : DeclaresIndex position (some (.int position)) (.number position)
  | flag {b : Bool} (h : Value.numberOfBool b = position) :
      DeclaresIndex position (some (.bool b)) (.flag b)

inductive GivesTarget : Option Value → Option Int → Prop
  | absent : GivesTarget none none
  | null : GivesTarget (some .null) none
  | number (t : Int) : GivesTarget (some (.int t)) (some t)

inductive HoldsRecords : Option Value → List Value → Prop
  | absent : HoldsRecords none []
  | null : HoldsRecords (some .null) []
  | list (records : List Value) : HoldsRecords (some (.list records)) records

inductive Describes (position : Nat) : Value → Instruction → Prop
  | record {entries : List (Value × Value)} {written : Value} {kind : Kind} {index : Index}
      {target : Option Int} (hkind : Value.field? entries "kind" = some written)
      (hspells : Spells written kind)
      (hindex : DeclaresIndex position (Value.field? entries "index") index)
      (htarget : GivesTarget (Value.field? entries "target") target) :
      Describes position (.map entries)
        { kind, index, target, opcode := (Value.field? entries "op").getD .null,
          line := (Value.field? entries "line").getD .null }

/-- The first check that a record at a position fails. Each check is only made when those before
it are passed. -/
inductive RecordFault (position : Nat) : Value → ListingFault → Prop
  | notMapping {record : Value} (hrecord : ∀ entries, record ≠ .map entries) :
      RecordFault position record (.recordNotMapping position record)
  | noKind {entries : List (Value × Value)} (hkind : Value.field? entries "kind" = none) :
      RecordFault position (.map entries) (.noKind position)
  | unknownKind {entries : List (Value × Value)} {written : Value}
      (hkind : Value.field? entries "kind" = some written)
      (hunknown : ∀ kind, ¬ Spells written kind) :
      RecordFault position (.map entries) (.unknownKind position written)
  | wrongIndex {entries : List (Value × Value)} {written v : Value} {kind : Kind}
      (hkind : Value.field? entries "kind" = some written) (hspells : Spells written kind)
      (hv : Value.field? entries "index" = some v)
      (hwrong : ∀ index, ¬ DeclaresIndex position (some v) index) :
      RecordFault position (.map entries) (.wrongIndex position v)
  | badTarget {entries : List (Value × Value)} {written v : Value} {kind : Kind} {index : Index}
      (hkind : Value.field? entries "kind" = some written) (hspells : Spells written kind)
      (hindex : DeclaresIndex position (Value.field? entries "index") index)
      (hv : Value.field? entries "target" = some v)
      (hbad : ∀ target, ¬ GivesTarget (some v) target) :
      RecordFault position (.map entries) (.badTarget position v)

structure DescribeAll (position : Nat) (records : List Value) (body : List Instruction) :
    Prop where
  length_eq : body.length = records.length
  describes : ∀ p record i, records[p]? = some record → body[p]? = some i →
    Describes (position + p) record i

/-- The first record that describes nothing, counted from a position on, has the fault. -/
def FirstFault (position : Nat) (records : List Value) (fault : ListingFault) : Prop :=
  ∃ p record, records[p]? = some record ∧ RecordFault (position + p) record fault ∧
    ∀ q earlier, q < p → records[q]? = some earlier → ∃ i, Describes (position + q) earlier i

section Records

variable {position : Nat} {entries : List (Value × Value)} {record v : Value}
  {fault : ListingFault}

theorem kindOf?_eq_some_iff {kind : Kind} : kindOf? v = some kind ↔ Spells v kind :=
  Kind.ofName?_eq_some_iff

theorem kindOf?_eq_none (h : ∀ kind, ¬ Spells v kind) : kindOf? v = none := by
  rw [Option.eq_none_iff_forall_ne_some]
  intro kind hkind
  exact h kind (kindOf?_eq_some_iff.mp hkind)

/-- If nothing has to stand under a name, what is wrong there is a value. -/
theorem meant_or_wrong {α : Type} {Means : Option Value → α → Prop} {a : α}
    (habsent : Means none a) (written : Option Value) :
    (∃ x, Means written x) ∨ ∃ v, written = some v ∧ ∀ x, ¬ Means (some v) x := by
  cases written with
  | none => exact .inl ⟨a, habsent⟩
  | some v =>
    by_cases hmeans : ∃ x, Means (some v) x
    · exact .inl hmeans
    · exact .inr ⟨v, rfl, not_exists.mp hmeans⟩

theorem indexOf_of_declares {index : Index}
    (h : DeclaresIndex position (Value.field? entries "index") index) :
    indexOf position entries = .ok index := by
  unfold indexOf
  generalize Value.field? entries "index" = written at h
  cases h with
  | absent => rfl
  | number => simp [Option.filter, Index.toInt?]
  | flag hb => simp [Option.filter, Index.toInt?, hb]

theorem indexOf_of_wrong (hv : Value.field? entries "index" = some v)
    (hwrong : ∀ index, ¬ DeclaresIndex position (some v) index) :
    indexOf position entries = .error (.wrongIndex position v) := by
  unfold indexOf
  rw [hv]
  cases v with
  | int i =>
    have hne : i ≠ position := by
      rintro rfl
      exact hwrong _ .number
    simp [Option.filter, Index.toInt?, hne]
  | bool b =>
    have hne : Value.numberOfBool b ≠ position := fun hb => hwrong _ (.flag hb)
    simp [Option.filter, Index.toInt?, hne]
  | _ => rfl

theorem targetOf_of_gives {target : Option Int}
    (h : GivesTarget (Value.field? entries "target") target) :
    targetOf position entries = .ok target := by
  unfold targetOf Value.field
  generalize Value.field? entries "target" = written at h
  cases h <;> rfl

theorem targetOf_of_bad (hv : Value.field? entries "target" = some v)
    (hbad : ∀ target, ¬ GivesTarget (some v) target) :
    targetOf position entries = .error (.badTarget position v) := by
  unfold targetOf Value.field
  rw [hv]
  cases v with
  | null => exact absurd .null (hbad _)
  | int t => exact absurd (.number t) (hbad _)
  | _ => rfl

theorem instruction_of_describes {i : Instruction} (h : Describes position record i) :
    instruction position record = .ok i := by
  cases h with
  | record hkind hspells hindex htarget =>
    simp only [instruction, hkind, kindOf?_eq_some_iff.mpr hspells, indexOf_of_declares hindex,
      targetOf_of_gives htarget]
    rfl

theorem instruction_of_fault (h : RecordFault position record fault) :
    instruction position record = .error fault := by
  cases h with
  | notMapping hrecord =>
    cases record with
    | map entries => exact absurd rfl (hrecord entries)
    | _ => rfl
  | noKind hkind => simp only [instruction, hkind]
  | unknownKind hkind hunknown => simp only [instruction, hkind, kindOf?_eq_none hunknown]
  | wrongIndex hkind hspells hv hwrong =>
    simp only [instruction, hkind, kindOf?_eq_some_iff.mpr hspells, indexOf_of_wrong hv hwrong]
    rfl
  | badTarget hkind hspells hindex hv hbad =>
    simp only [instruction, hkind, kindOf?_eq_some_iff.mpr hspells, indexOf_of_declares hindex,
      targetOf_of_bad hv hbad]
    rfl

theorem describes_or_fault (position : Nat) (record : Value) :
    (∃ i, Describes position record i) ∨ ∃ fault, RecordFault position record fault := by
  by_cases hmap : ∃ entries, record = .map entries
  · obtain ⟨entries, rfl⟩ := hmap
    cases hkind : Value.field? entries "kind" with
    | none => exact .inr ⟨_, .noKind hkind⟩
    | some written =>
      by_cases hspells : ∃ kind, Spells written kind
      · obtain ⟨kind, hspells⟩ := hspells
        rcases meant_or_wrong (@DeclaresIndex.absent position) (Value.field? entries "index") with
          ⟨index, hindex⟩ | ⟨v, hv, hwrong⟩
        · rcases meant_or_wrong GivesTarget.absent (Value.field? entries "target") with
            ⟨target, htarget⟩ | ⟨v, hv, hbad⟩
          · exact .inl ⟨_, .record hkind hspells hindex htarget⟩
          · exact .inr ⟨_, .badTarget hkind hspells hindex hv hbad⟩
        · exact .inr ⟨_, .wrongIndex hkind hspells hv hwrong⟩
      · exact .inr ⟨_, .unknownKind hkind (not_exists.mp hspells)⟩
  · exact .inr ⟨_, .notMapping (not_exists.mp hmap)⟩

theorem RecordFault.not_describes (h : RecordFault position record fault) (i : Instruction) :
    ¬ Describes position record i := by
  intro hi
  cases (instruction_of_fault h).symm.trans (instruction_of_describes hi)

/-- The text of a record's fault starts with the record's position. -/
theorem RecordFault.message_eq (h : RecordFault position record fault) :
    ∃ complaint, fault.message = s!"Instruction {position} " ++ complaint := by
  have hsplit : ∀ check rest : String,
      "Instruction " ++ toString position ++ (" " ++ check) ++ rest =
        "Instruction " ++ toString position ++ " " ++ (check ++ rest) := by
    intro check rest
    simp only [String.append_assoc]
  cases h with
  | notMapping _ => exact ⟨_, hsplit "must be a mapping, got " record.typeName⟩
  | noKind _ =>
    exact ⟨_, (String.append_assoc :
      "Instruction " ++ toString position ++ " " ++ "has no kind" = _).symm⟩
  | @unknownKind _ written _ _ => exact ⟨_, hsplit "has unknown kind " written.literal⟩
  | @wrongIndex _ _ v => exact ⟨_, hsplit "declares index " v.literal⟩
  | @badTarget _ _ v => exact ⟨_, hsplit "has non-integer target " v.literal⟩

theorem describeAll_cons_iff {rest : List Value} {i : Instruction} {body : List Instruction} :
    DescribeAll position (record :: rest) (i :: body) ↔
      Describes position record i ∧ DescribeAll (position + 1) rest body := by
  have hshift : ∀ p, position + 1 + p = position + (p + 1) := by omega
  constructor
  · rintro ⟨hlength, hall⟩
    refine ⟨hall 0 record i rfl rfl, Nat.succ.inj hlength, ?_⟩
    intro p later j hlater hj
    rw [hshift]
    exact hall (p + 1) later j hlater hj
  · rintro ⟨hfirst, hlength, hall⟩
    refine ⟨congrArg Nat.succ hlength, ?_⟩
    intro p later j hlater hj
    cases p with
    | zero =>
      cases hlater
      cases hj
      exact hfirst
    | succ p =>
      rw [← hshift]
      exact hall p later j hlater hj

theorem firstFault_cons_iff {rest : List Value} : FirstFault position (record :: rest) fault ↔
    RecordFault position record fault ∨
      (∃ i, Describes position record i) ∧ FirstFault (position + 1) rest fault := by
  simp only [FirstFault, show ∀ p, position + 1 + p = position + (p + 1) by omega]
  constructor
  · rintro ⟨p, faulty, hp, hfault, hearlier⟩
    cases p with
    | zero =>
      cases hp
      exact .inl hfault
    | succ p =>
      refine .inr ⟨hearlier 0 record p.succ_pos rfl, p, faulty, hp, hfault, ?_⟩
      intro q earlier hq hqth
      exact hearlier (q + 1) earlier (Nat.succ_lt_succ hq) hqth
  · rintro (hfault | ⟨hfirst, p, faulty, hp, hfault, hearlier⟩)
    · exact ⟨0, record, rfl, hfault, nofun⟩
    · refine ⟨p + 1, faulty, hp, hfault, ?_⟩
      intro q earlier hq hqth
      cases q with
      | zero =>
        cases hqth
        exact hfirst
      | succ q => exact hearlier q earlier (Nat.lt_of_succ_lt_succ hq) hqth

/-- A list of records is read to the end when each of them describes an instruction, and otherwise
as far as the first that does not. -/
theorem instructions_exact (position : Nat) (records : List Value) :
    (∀ body, instructions position records = .ok body ↔ DescribeAll position records body) ∧
      ∀ fault, instructions position records = .error fault ↔
        FirstFault position records fault := by
  induction records generalizing position with
  | nil =>
    refine exact_of_total ?_ ?_ (.inl ⟨[], rfl, nofun⟩)
    · rintro body ⟨hlength, _⟩
      rw [List.eq_nil_of_length_eq_zero hlength]
      rfl
    · rintro fault ⟨p, record, hp, _⟩
      cases hp
  | cons record rest ih =>
    obtain ⟨hok, herror⟩ := ih (position + 1)
    refine exact_of_total ?_ ?_ ?_
    · intro body hall
      cases body with
      | nil => cases hall.length_eq
      | cons i body =>
        obtain ⟨hi, hrest⟩ := describeAll_cons_iff.mp hall
        simp [instructions, instruction_of_describes hi, (hok body).mpr hrest, bind, Except.bind]
    · intro fault hfault
      rcases firstFault_cons_iff.mp hfault with hhere | ⟨⟨i, hi⟩, hlater⟩
      · simp [instructions, instruction_of_fault hhere, bind, Except.bind]
      · simp [instructions, instruction_of_describes hi, (herror fault).mpr hlater, bind,
          Except.bind]
    · rcases describes_or_fault position record with ⟨i, hi⟩ | ⟨fault, hhere⟩
      · cases hrest : instructions (position + 1) rest with
        | ok body => exact .inl ⟨i :: body, describeAll_cons_iff.mpr ⟨hi, (hok body).mp hrest⟩⟩
        | error fault =>
          exact .inr ⟨fault, firstFault_cons_iff.mpr (.inr ⟨⟨i, hi⟩, (herror fault).mp hrest⟩)⟩
      · exact .inr ⟨fault, firstFault_cons_iff.mpr (.inl hhere)⟩

theorem exists_describeAll_iff {records : List Value} :
    (∃ body, DescribeAll position records body) ↔
    ∀ p record, records[p]? = some record → ∃ i, Describes (position + p) record i := by
  obtain ⟨hok, herror⟩ := instructions_exact position records
  constructor
  · rintro ⟨body, hlength, hall⟩ p record hp
    have hlt : p < body.length := hlength ▸ (List.getElem?_eq_some_iff.mp hp).1
    exact ⟨body[p], hall p record body[p] hp (List.getElem?_eq_getElem hlt)⟩
  · intro hall
    cases hread : instructions position records with
    | ok body => exact ⟨body, (hok body).mp hread⟩
    | error fault =>
      obtain ⟨p, record, hp, hfault, _⟩ := (herror fault).mp hread
      obtain ⟨i, hi⟩ := hall p record hp
      exact absurd hi (hfault.not_describes i)

end Records

def IsListing (document : Value) : Prop :=
  ∃ entries records, document = .map entries ∧ (Value.field entries "method").isTrue = true ∧
    HoldsRecords (Value.field? entries "instructions") records ∧
    ∀ p record, records[p]? = some record → ∃ i, Describes p record i

inductive Presents : Value → Method → Prop
  | method {entries : List (Value × Value)} {records : List Value} {body : List Instruction}
      (hmethod : (Value.field entries "method").isTrue = true)
      (hrecords : HoldsRecords (Value.field? entries "instructions") records)
      (hbody : DescribeAll 0 records body) :
      Presents (.map entries) ⟨(Value.field entries "method").codes, body⟩

/-- Why a document is refused. Its records are only looked at when all else is in order. -/
inductive Refused : Value → ListingFault → Prop
  | notMapping {document : Value} (hdocument : ∀ entries, document ≠ .map entries) :
      Refused document .notMapping
  | noMethod {entries : List (Value × Value)}
      (hmethod : (Value.field entries "method").isTrue = false) :
      Refused (.map entries) .noMethod
  | notList {entries : List (Value × Value)} {v : Value}
      (hmethod : (Value.field entries "method").isTrue = true)
      (hv : Value.field? entries "instructions" = some v)
      (hother : ∀ records, ¬ HoldsRecords (some v) records) :
      Refused (.map entries) (.instructionsNotList (Value.field entries "method").display)
  | record {entries : List (Value × Value)} {records : List Value} {fault : ListingFault}
      (hmethod : (Value.field entries "method").isTrue = true)
      (hrecords : HoldsRecords (Value.field? entries "instructions") records)
      (hfault : FirstFault 0 records fault) : Refused (.map entries) fault

section Documents

variable {document : Value} {entries : List (Value × Value)}

theorem ofDocument_of_records {records : List Value}
    (hmethod : (Value.field entries "method").isTrue = true)
    (hrecords : HoldsRecords (Value.field? entries "instructions") records) :
    ofDocument (.map entries) =
      (instructions 0 records).map fun body => ⟨(Value.field entries "method").codes, body⟩ := by
  simp only [ofDocument, hmethod, if_true]
  rw [show Value.field entries "instructions" = (Value.field? entries "instructions").getD .null
    from rfl]
  generalize Value.field? entries "instructions" = written at hrecords
  cases hrecords <;> rfl

theorem ofDocument_of_presents {m : Method} (h : Presents document m) :
    ofDocument document = .ok m := by
  cases h with
  | method hmethod hrecords hbody =>
    rw [ofDocument_of_records hmethod hrecords, ((instructions_exact 0 _).1 _).mpr hbody]
    rfl

theorem ofDocument_of_refused {fault : ListingFault} (h : Refused document fault) :
    ofDocument document = .error fault := by
  cases h with
  | notMapping hdocument =>
    cases document with
    | map entries => exact absurd rfl (hdocument entries)
    | _ => rfl
  | noMethod hmethod => simp [ofDocument, hmethod]
  | @notList entries v hmethod hv hother =>
    simp only [ofDocument, hmethod, if_true]
    rw [show Value.field entries "instructions" = v by simp [Value.field, hv]]
    cases v with
    | null => exact absurd .null (hother _)
    | list records => exact absurd (.list records) (hother _)
    | _ => rfl
  | record hmethod hrecords hfault =>
    rw [ofDocument_of_records hmethod hrecords, ((instructions_exact 0 _).2 _).mpr hfault]
    rfl

theorem presents_or_refused (document : Value) :
    (∃ m, Presents document m) ∨ ∃ fault, Refused document fault := by
  by_cases hmap : ∃ entries, document = .map entries
  · obtain ⟨entries, rfl⟩ := hmap
    cases hmethod : (Value.field entries "method").isTrue with
    | false => exact .inr ⟨_, .noMethod hmethod⟩
    | true =>
      rcases meant_or_wrong HoldsRecords.absent (Value.field? entries "instructions") with
        ⟨records, hrecords⟩ | ⟨v, hv, hother⟩
      · obtain ⟨hok, herror⟩ := instructions_exact 0 records
        cases hread : instructions 0 records with
        | ok body => exact .inl ⟨_, .method hmethod hrecords ((hok body).mp hread)⟩
        | error fault => exact .inr ⟨_, .record hmethod hrecords ((herror fault).mp hread)⟩
      · exact .inr ⟨_, .notList hmethod hv hother⟩
  · exact .inr ⟨_, .notMapping (not_exists.mp hmap)⟩

theorem exists_presents_iff : (∃ m, Presents document m) ↔ IsListing document := by
  constructor
  · rintro ⟨_, hmethod, hrecords, hbody⟩
    refine ⟨_, _, rfl, hmethod, hrecords, ?_⟩
    simpa using exists_describeAll_iff.mp ⟨_, hbody⟩
  · rintro ⟨entries, records, rfl, hmethod, hrecords, hall⟩
    obtain ⟨body, hbody⟩ : ∃ body, DescribeAll 0 records body :=
      exists_describeAll_iff.mpr (by simpa using hall)
    exact ⟨_, .method hmethod hrecords hbody⟩

end Documents

/-- A document is read just when it is a listing. What is read from it, or the fault for which it
is refused, is then the one that the rules give, and the text of a record's fault starts with the
record's position. -/
theorem ofDocument_exact (document : Value) :
    ((∃ m, ofDocument document = .ok m) ↔ IsListing document) ∧
    (∀ m, ofDocument document = .ok m ↔ Presents document m) ∧
    (∀ fault, ofDocument document = .error fault ↔ Refused document fault) ∧
    ∀ position record fault, RecordFault position record fault →
      ∃ complaint, fault.message = s!"Instruction {position} " ++ complaint := by
  obtain ⟨hok, herror⟩ :=
    exact_of_total (fun _ => ofDocument_of_presents) (fun _ => ofDocument_of_refused)
    (presents_or_refused document)
  refine ⟨?_, hok, herror, fun _ _ _ => RecordFault.message_eq⟩
  rw [← exists_presents_iff]
  exact exists_congr hok

def twoRecords (others : List Value) : Value :=
  .map [(.text "instructions", .list
      (.map [(.text "kind", .text "Conditional_JUMP"), (.text "target", .int 5)] ::
        .map [(.text "index", .bool true), (.text "kind", .text "RETURN"),
          (.text "target", .null)] :: others)),
    (.text "method", .int 7)]

def misplacedCall : Value :=
  .map [(.text "target", .bool false), (.text "kind", .text "call"), (.text "index", .bool true)]

/-- The two records alone make a listing. Of all that is wrong after them the first thing is
reported, which is the index of the third record. -/
theorem twoRecords_exact : IsListing (twoRecords []) ∧
    Refused (twoRecords [misplacedCall, .null]) (.wrongIndex 2 (.bool true)) ∧
      ∃ complaint,
        (ListingFault.wrongIndex 2 (.bool true)).message = "Instruction 2 " ++ complaint := by
  obtain ⟨hlisting, _⟩ := ofDocument_exact (twoRecords [])
  obtain ⟨_, _, hrefused, hmessage⟩ := ofDocument_exact (twoRecords [misplacedCall, .null])
  have hfault : RecordFault 2 misplacedCall (.wrongIndex 2 (.bool true)) := by
    refine .wrongIndex rfl (show Spells (.text "call") .call from rfl) rfl ?_
    intro index hindex
    cases hindex with
    | flag hone => cases hone
  exact ⟨hlisting.mp ⟨_, rfl⟩, (hrefused _).mp rfl, hmessage 2 misplacedCall _ hfault⟩

end Listing

end FlowGraph
