import FlowGraph.Listing.Load
import FlowGraph.Proofs.Batch

/-!
Reading and building a listing of many methods. Documents are read from the front, and reading
goes on as long as each gives a method under a name that is still free. So it comes to the end
just when every document gives a method and no name comes twice, and otherwise it stops at the
earliest document that is refused or repeats a name. A document only gives instructions that stand
at their indices, which is why no method that was read can fail for an index when it is built.
-/
namespace FlowGraph.Listing

section Positions

variable {position : Nat} {entries : List (Value × Value)}

theorem indexOf_toInt? {index : Index} (h : indexOf position entries = .ok index) :
    index.toInt? = some (position : Int) := by
  unfold indexOf at h
  split at h
  · cases h
    rfl
  · dsimp only at h
    split at h
    case h_1 i hfilter =>
      cases h
      simpa using Option.filter_eq_some_iff.mp hfilter |>.2
    case h_2 => cases h

theorem instruction_toInt? {record : Value} {i : Instruction}
    (h : instruction position record = .ok i) :
    i.index.toInt? = some (position : Int) := by
  unfold instruction at h
  split at h
  case h_1 entries =>
    split at h
    case h_1 => cases h
    case h_2 written _ =>
      split at h
      case h_1 => cases h
      case h_2 kind _ =>
        obtain ⟨index, hindex, h⟩ := exists_of_bind_ok h
        obtain ⟨target, _, h⟩ := exists_of_bind_ok h
        cases h
        exact indexOf_toInt? hindex
  case h_2 => cases h

def InPlace (position : Nat) (body : List Instruction) : Prop :=
  ∀ (p : Nat) (i : Instruction), body[p]? = some i →
    i.index.toInt? = some ((position + p : Nat) : Int)

theorem instructions_inPlace {records : List Value} {body : List Instruction}
    (h : instructions position records = .ok body) : InPlace position body := by
  induction records generalizing position body with
  | nil =>
    cases h
    intro p i hi
    simp at hi
  | cons record rest ih =>
    obtain ⟨first, hfirst, h⟩ := exists_of_bind_ok h
    obtain ⟨others, hothers, h⟩ := exists_of_bind_ok h
    cases h
    intro p i hi
    cases p with
    | zero =>
      obtain rfl : first = i := by simpa using hi
      exact instruction_toInt? hfirst
    | succ p =>
      have hplace := ih hothers p i (by simpa using hi)
      rw [hplace]
      congr 2
      omega

theorem ofDocument_inPlace {document : Value} {m : Method} (h : ofDocument document = .ok m) :
    InPlace 0 m.body := by
  unfold ofDocument at h
  split at h
  case h_1 entries =>
    dsimp only at h
    split at h
    case isTrue =>
      split at h
      · cases h
        intro p i hi
        simp at hi
      · rename_i records _
        cases hbody : instructions 0 records with
        | error fault =>
          rw [hbody] at h
          cases h
        | ok body =>
          rw [hbody] at h
          cases h
          exact instructions_inPlace hbody
      · cases h
    case isFalse => cases h
  case h_2 => cases h

/-- Instructions that stand at their indices are never refused for an index. -/
theorem InPlace.not_misplaced {body : List Instruction} (h : InPlace 0 body) {name : String}
    {p : Int} {declared : Index} :
    buildGraph body { method := some name } ≠
      .error (.failure (.contract p (.misplaced declared))) := by
  intro hbuild
  obtain ⟨outcome, houtcome, hsame⟩ := exists_outcome body
  obtain rfl : outcome = _ := (hsame (some name) _).symm.trans hbuild
  -- Among the outcomes only a breach of the contract has this form.
  cases houtcome with
  | breach hi hbreach _ =>
    cases hbreach with
    | misplaced hindex =>
      have hplace := h _ _ hi
      rw [Nat.zero_add] at hplace
      exact hindex hplace

end Positions

def Give (documents : List Value) (methods : List Method) : Prop :=
  List.Forall₂ (fun d m => ofDocument d = .ok m) documents methods

def Distinct (methods : List Method) : Prop := methods.Pairwise fun m other => m.name ≠ other.name

/-- Why reading stops at a document once certain methods have been read. -/
inductive Stops (methods : List Method) (document : Value) : ListingFault → Prop
  | refused {fault : ListingFault} (h : ofDocument document = .error fault) :
      Stops methods document fault
  | repeated {m : Method} (h : ofDocument document = .ok m)
      (hname : ∃ other ∈ methods, other.name = m.name) :
      Stops methods document (.duplicate (Text.shown m.name))

section Reading

variable {before : List Method} {document : Value}

theorem readAll_of_stops {fault : ListingFault} (h : Stops before document fault)
    (rest : List Value) :
    readAll before (document :: rest) = .error fault := by
  cases h with
  | refused h => simp [readAll, h, bind, Except.bind]
  | @repeated m h hname => simp [readAll, h, hname, bind, Except.bind]

theorem readAll_of_free {m : Method} (h : ofDocument document = .ok m)
    (hfree : ∀ other ∈ before, other.name ≠ m.name) (rest : List Value) :
    readAll before (document :: rest) = readAll (before ++ [m]) rest := by
  have hnone : (before.any fun other => other.name == m.name) = false := by simpa using hfree
  simp [readAll, h, hnone, bind, Except.bind]

theorem stops_or_free (before : List Method) (document : Value) :
    (∃ fault, Stops before document fault) ∨
    ∃ m, ofDocument document = .ok m ∧ ∀ other ∈ before, other.name ≠ m.name := by
  cases h : ofDocument document with
  | error fault => exact .inl ⟨fault, .refused h⟩
  | ok m =>
    by_cases hname : ∃ other ∈ before, other.name = m.name
    · exact .inl ⟨_, .repeated h hname⟩
    · exact .inr ⟨m, rfl, by simpa using hname⟩

theorem Distinct.snoc {m : Method} (h : Distinct before)
    (hfree : ∀ other ∈ before, other.name ≠ m.name) : Distinct (before ++ [m]) := by
  refine List.pairwise_append.mpr ⟨h, List.pairwise_singleton _ _, ?_⟩
  intro other hother m' hm'
  rw [List.mem_singleton.mp hm']
  exact hfree other hother

/-- Documents that give methods under new names are read one after another. -/
theorem readAll_append (before : List Method) {front : List Value} {read : List Method}
    (h : Give front read) (hdistinct : Distinct (before ++ read)) (rest : List Value) :
    readAll before (front ++ rest) = readAll (before ++ read) rest := by
  induction h generalizing before with
  | nil => rw [List.nil_append, List.append_nil]
  | @cons document m front read hm _ ih =>
    have hfree : ∀ other ∈ before, other.name ≠ m.name := by
      intro other hother
      exact (List.pairwise_append.mp hdistinct).2.2 other hother m List.mem_cons_self
    rw [List.append_cons] at hdistinct
    rw [List.cons_append, readAll_of_free hm hfree, ih _ hdistinct, ← List.append_cons]

/-- Either all documents are read or there is an earliest one at which reading stops. -/
theorem give_or_stops (before : List Method) (documents : List Value)
    (hbefore : Distinct before) :
    (∃ read, Give documents read ∧ Distinct (before ++ read)) ∨
      ∃ front document rest read fault, documents = front ++ document :: rest ∧ Give front read ∧
        Distinct (before ++ read) ∧ Stops (before ++ read) document fault := by
  induction documents generalizing before with
  | nil => exact .inl ⟨[], .nil, by rwa [List.append_nil]⟩
  | cons document documents ih =>
    rcases stops_or_free before document with ⟨fault, hstops⟩ | ⟨m, hm, hfree⟩
    · refine .inr ⟨[], document, documents, [], fault, rfl, .nil, ?_, ?_⟩
      · rwa [List.append_nil]
      · rwa [List.append_nil]
    · rcases ih _ (hbefore.snoc hfree) with ⟨read, hread, hdistinct⟩ |
        ⟨front, last, rest, read, fault, rfl, hread, hdistinct, hstops⟩
      · rw [← List.append_cons] at hdistinct
        exact .inl ⟨m :: read, .cons hm hread, hdistinct⟩
      · rw [← List.append_cons] at hdistinct hstops
        exact .inr ⟨document :: front, last, rest, m :: read, fault, rfl, .cons hm hread,
          hdistinct, hstops⟩

theorem readAll_of_give {documents : List Value} {read : List Method} (h : Give documents read)
    (hdistinct : Distinct read) : readAll [] documents = .ok read := by
  simpa [readAll] using readAll_append [] h hdistinct []

theorem readAll_of_front {front rest : List Value} {read : List Method} {fault : ListingFault}
    (h : Give front read) (hdistinct : Distinct read) (hstops : Stops read document fault) :
    readAll [] (front ++ document :: rest) = .error fault := by
  rw [readAll_append [] h hdistinct]
  exact readAll_of_stops hstops rest

theorem readAll_eq_ok_iff {documents : List Value} {methods : List Method} :
    readAll [] documents = .ok methods ↔ Give documents methods ∧ Distinct methods := by
  constructor
  · intro hread
    rcases give_or_stops [] documents .nil with ⟨read, hgive, hdistinct⟩ |
      ⟨front, document, rest, read, fault, rfl, hgive, hdistinct, hstops⟩
    · obtain rfl := Except.ok.inj ((readAll_of_give hgive hdistinct).symm.trans hread)
      exact ⟨hgive, hdistinct⟩
    · rw [readAll_of_front hgive hdistinct hstops] at hread
      cases hread
  · rintro ⟨hgive, hdistinct⟩
    exact readAll_of_give hgive hdistinct

theorem readAll_eq_error_iff {documents : List Value} {fault : ListingFault} :
    readAll [] documents = .error fault ↔ ∃ front document rest read,
      documents = front ++ document :: rest ∧ Give front read ∧ Distinct read ∧
        Stops read document fault := by
  constructor
  · intro hread
    rcases give_or_stops [] documents .nil with ⟨read, hgive, hdistinct⟩ |
      ⟨front, document, rest, read, other, rfl, hgive, hdistinct, hstops⟩
    · rw [readAll_of_give hgive hdistinct] at hread
      cases hread
    · obtain rfl := Except.error.inj ((readAll_of_front hgive hdistinct hstops).symm.trans hread)
      exact ⟨front, document, rest, read, rfl, hgive, hdistinct, hstops⟩
  · rintro ⟨front, document, rest, read, rfl, hgive, hdistinct, hstops⟩
    exact readAll_of_front hgive hdistinct hstops

end Reading

theorem Give.inPlace {documents : List Value} {methods : List Method}
    (h : Give documents methods) :
    ∀ m ∈ methods, InPlace 0 m.body := by
  intro m hm
  obtain ⟨document, _, hdocument⟩ := exists_rel_of_mem h hm
  exact ofDocument_inPlace hdocument

/-- Methods whose instructions stand at their indices are built without a fault, each with its own
result, and none of them fails for an index. -/
theorem buildAll_inPlace {methods : List Method} (h : ∀ m ∈ methods, InPlace 0 m.body)
    {asked : Option Int} (hasked : ∀ n, asked = some n → 0 ≤ n) :
    ∃ batch, buildAll (methods.map Method.entry) asked = .ok batch ∧
      List.Forall₂ (fun m r => r.Answers (Text.shown m.name) m.body) methods batch.results ∧
      ∀ r ∈ batch.results, ∀ p declared,
        r.outcome ≠ .error (.contract p (.misplaced declared)) := by
  obtain ⟨batch, hbatch, hresults⟩ := buildAll_ok (methods.map Method.entry) hasked
  rw [List.forall₂_map_left_iff] at hresults
  refine ⟨batch, hbatch, hresults, ?_⟩
  intro r hr p declared houtcome
  obtain ⟨m, hm, hanswers⟩ := exists_rel_of_mem hresults hr
  have hbuild := hanswers.outcome
  rw [houtcome] at hbuild
  exact (h m hm).not_misplaced hbuild

def live (documents : List Value) : List Value := documents.filter fun d => !isNull d

/-- A text is loaded by its documents. Loading succeeds just when every document that is not null
gives a method and no name comes twice, and the methods then stand in the order of their
documents. It fails with the fault of the earliest document that is refused or repeats a name.
Methods that were loaded are all built, and none of them fails for an index. -/
theorem loading_and_building (documents : List Value) :
    (∀ text found, Yaml.readAll text = .ok found → found.map documentView = documents →
      loadAll text = (ofDocuments documents).mapError .listing) ∧
    (∀ methods, ofDocuments documents = .ok methods ↔
      Give (live documents) methods ∧ Distinct methods) ∧
    (∀ fault, ofDocuments documents = .error fault ↔ ∃ front document rest read,
      live documents = front ++ document :: rest ∧ Give front read ∧ Distinct read ∧
        Stops read document fault) ∧
    ∀ methods asked, ofDocuments documents = .ok methods → (∀ n, asked = some n → 0 ≤ n) →
      ∃ batch, buildAll (methods.map Method.entry) asked = .ok batch ∧
        List.Forall₂ (fun m r => r.Answers (Text.shown m.name) m.body) methods batch.results ∧
        ∀ r ∈ batch.results, ∀ p declared,
          r.outcome ≠ .error (.contract p (.misplaced declared)) := by
  refine ⟨?_, fun _ => readAll_eq_ok_iff, fun _ => readAll_eq_error_iff, ?_⟩
  · rintro text found hfound rfl
    simp [loadAll, hfound, ofYaml, bind, Except.bind]
  · intro methods asked hmethods hasked
    obtain ⟨hgive, _⟩ := readAll_eq_ok_iff.mp hmethods
    exact buildAll_inPlace hgive.inPlace hasked

/-- Two methods with a null document between them. The first index is written as a truth value. -/
def twoMethods : String :=
  "method: 1\ninstructions:\n- kind: Return\n  index: no\n---\n---\nmethod: f\n"

theorem twoMethods_loaded_and_built : ∃ methods batch, loadAll twoMethods = .ok methods ∧
    Distinct methods ∧ buildAll (methods.map Method.entry) none = .ok batch ∧
    ∀ r ∈ batch.results, ∀ p declared,
      r.outcome ≠ .error (.contract p (.misplaced declared)) := by
  -- That the text loads is evaluated; what it loads to is only known to exist.
  have hloads : (loadAll twoMethods).toBool = true := by decide +kernel
  cases hfound : Yaml.readAll twoMethods with
  | error fault =>
    unfold loadAll at hloads
    rw [hfound] at hloads
    cases fault <;> cases hloads
  | ok found =>
    obtain ⟨hload, hok, _, hbuild⟩ := loading_and_building (found.map documentView)
    have hloaded := hload twoMethods found hfound rfl
    cases hmethods : ofDocuments (found.map documentView) with
    | error fault =>
      rw [hloaded, hmethods] at hloads
      cases hloads
    | ok methods =>
      obtain ⟨batch, hbatch, _, hplaced⟩ := hbuild methods none hmethods (by simp)
      rw [hmethods] at hloaded
      exact ⟨methods, batch, hloaded, ((hok methods).mp hmethods).2, hbatch, hplaced⟩

/-- A number and a text are one name if they are written alike, and the third document is not
looked at. -/
example :
    ofDocuments [.map [(.text "method", .int 1)], .map [(.text "method", .text "1")], .list []] =
    .error (.duplicate "1") := rfl

/-- A half of a character and the escape that spells it out are two names. -/
example : (ofDocuments [.map [(.text "method", .broken [.half 0])],
    .map [(.text "method", .text (Text.shown [.half 0]))]]).toBool = true := by decide

end FlowGraph.Listing
