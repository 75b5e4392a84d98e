import DocumentModel.Proofs.Outcome
import DocumentModel.Query.Result

/-! What a query makes of the responses of a store.

Reading takes the plan off the responses if it is asked for (`Splits`) and goes through the others
in order. It comes to records for all of them, or to the error of the first that is the text of no
document (`Reads`), be that an error of the store or of the text. A record has the fields of the
document that was read and stands for it, and it is the document itself if that is asked for
(`Holds`). Neither the plan nor the error depends on this choice, nor does what can be asked of both
kinds of record: `ofResponses_all_or_nothing`. -/
namespace DocumentModel.ResultSet

variable {options : ResultOptions} {responses rest : List Response} {plan : Option String}

/-! ### Single responses -/

/-- A response that is the text of a document. -/
inductive Reads : Response → Document → Prop
  | text {text : String} {d : Document} (h : Document.ofText text = .ok d) : Reads (.ok text) d

/-- A response that is an error, or the text of no document. -/
inductive Faulty : Response → Error → Prop
  | store (e : Error) : Faulty (.error e) e
  | text {text : String} {e : Error} (h : Document.ofText text = .error e) : Faulty (.ok text) e

/-- A record that holds a document, whole if documents are asked for and else as a map. -/
structure Holds (asDocuments : Bool) (record : ResultRecord) (d : Document) : Prop where
  fields : record.fields = d.root
  toDocument : record.toDocument = d
  document? : record.document? = if asDocuments then some d else none

/-- A response, and the record that it is read as. -/
def Records (asDocuments : Bool) (response : Response) (record : ResultRecord) : Prop :=
  ∃ d, Reads response d ∧ Holds asDocuments record d

/-- The document of one response. -/
def decode (response : Response) : Except Error Document := do Document.ofText (← response)

theorem decode_eq_ok_iff {response : Response} {d : Document} :
    decode response = .ok d ↔ Reads response d := by
  constructor
  · intro h
    cases response with
    | error e => cases h
    | ok text => exact .text h
  · intro hreads
    cases hreads with
    | text h => exact h

theorem decode_eq_error_iff {response : Response} {e : Error} :
    decode response = .error e ↔ Faulty response e := by
  constructor
  · intro h
    cases response with
    | error other =>
      cases h
      exact .store e
    | ok text => exact .text h
  · intro hfaulty
    cases hfaulty with
    | store => rfl
    | text h => exact h

/-- What a record holds determines it. -/
theorem holds_iff {asDocuments : Bool} {record : ResultRecord} {d : Document} :
    Holds asDocuments record d ↔ record = .ofDocument asDocuments d := by
  constructor
  · intro hholds
    obtain ⟨hfields, hdocument, hkept⟩ := hholds
    cases record with
    | document other =>
      cases asDocuments with
      | true => exact congrArg ResultRecord.document hdocument
      | false => cases hkept
    | plain fields =>
      cases asDocuments with
      | true => cases hkept
      | false => exact congrArg ResultRecord.plain hfields
  · intro hrecord
    subst hrecord
    cases asDocuments <;> exact ⟨rfl, rfl, rfl⟩

/-! ### Responses one after the other -/

/-- Reading is decoding, and then keeping each document as a record. -/
theorem readRecords_eq_map (asDocuments : Bool) (responses : List Response) :
    readRecords asDocuments responses =
      (responses.mapM decode).map (List.map (ResultRecord.ofDocument asDocuments)) := by
  induction responses with
  | nil => rfl
  | cons response rest ih =>
    rw [readRecords, List.mapM_cons, ih]
    cases response with
    | error e => rfl
    | ok text =>
      show (Document.ofText text >>= _) = Except.map _ (Document.ofText text >>= _)
      cases Document.ofText text with
      | error e => rfl
      | ok d => cases rest.mapM decode <;> rfl

theorem decodeAll_eq_ok_iff {ds : List Document} :
    responses.mapM decode = .ok ds ↔ List.Forall₂ Reads responses ds := by
  simp only [mapM_eq_ok_iff, decode_eq_ok_iff]

/-- The records of responses are those of their documents. -/
theorem forall₂_records_iff {asDocuments : Bool} {records : List ResultRecord} :
    List.Forall₂ (Records asDocuments) responses records ↔
      ∃ ds, List.Forall₂ Reads responses ds ∧ ds.map (.ofDocument asDocuments) = records := by
  constructor
  · intro h
    induction h with
    | nil => exact ⟨[], .nil, rfl⟩
    | cons hrecord _ ih =>
      obtain ⟨d, hreads, hholds⟩ := hrecord
      obtain ⟨ds, hds, rfl⟩ := ih
      exact ⟨d :: ds, .cons hreads hds, by rw [holds_iff.1 hholds, List.map_cons]⟩
  · intro hgiven
    obtain ⟨ds, hds, rfl⟩ := hgiven
    rw [List.forall₂_map_right_iff]
    exact hds.imp fun _ d hreads => ⟨d, hreads, holds_iff.2 rfl⟩

/-- There are documents for responses if there is one for each. -/
theorem exists_forall₂_reads_iff (responses : List Response) :
    (∃ ds, List.Forall₂ Reads responses ds) ↔ ∀ response ∈ responses, ∃ d, Reads response d := by
  induction responses with
  | nil => simp
  | cons response rest ih =>
    rw [List.forall_mem_cons, ← ih]
    constructor
    · intro hgiven
      obtain ⟨ds, hds⟩ := hgiven
      cases hds with
      | cons hreads hrest => exact ⟨⟨_, hreads⟩, _, hrest⟩
    · intro hgiven
      obtain ⟨⟨d, hreads⟩, ds, hrest⟩ := hgiven
      exact ⟨d :: ds, .cons hreads hrest⟩

/-! ### The plan in front -/

/-- The plan that is taken off responses, if one is asked for, and those that are left. -/
inductive Splits : Bool → List Response → Option String → List Response → Prop
  | plan (text : String) (rest : List Response) : Splits true (.ok text :: rest) (some text) rest
  | noPlan (responses : List Response) : Splits false responses none responses

/-- Responses where reading stops, and its error. -/
inductive Stops (includePlan : Bool) : List Response → Error → Prop
  /-- There is no plan. -/
  | missing (h : includePlan = true) :
    Stops includePlan []
      (.because .serialization
        "invalid response stream, the query plan must be included in the response stream")
  /-- An error stands in the place of the plan. -/
  | plan (h : includePlan = true) (e : Error) (rest : List Response) :
    Stops includePlan (.error e :: rest) e
  /-- A response is the text of no document, and all in front of it are. -/
  | record {responses before later : List Response} {failing : Response}
    {plan : Option String} {e : Error}
    (hsplits : Splits includePlan responses plan (before ++ failing :: later))
    (hbefore : ∀ response ∈ before, ∃ d, Reads response d)
    (hfaulty : Faulty failing e) : Stops includePlan responses e

theorem ofResponses_of_splits (h : Splits options.includePlan responses plan rest) :
    ofResponses options responses =
      (rest.mapM decode).map fun ds => ⟨ds.map (.ofDocument options.asDocuments), plan⟩ := by
  obtain ⟨includePlan, asDocuments⟩ := options
  cases h with
  | plan text =>
    show (readRecords asDocuments rest >>= _) = _
    rw [readRecords_eq_map]
    cases rest.mapM decode <;> rfl
  | noPlan =>
    show (readRecords asDocuments responses >>= _) = _
    rw [readRecords_eq_map]
    cases responses.mapM decode <;> rfl

/-- Where nothing can be taken off, there is no plan or an error in its place. -/
theorem splits_or_stops (options : ResultOptions) (responses : List Response) :
    (∃ plan rest, Splits options.includePlan responses plan rest) ∨
      ∃ e, ofResponses options responses = .error e ∧ Stops options.includePlan responses e := by
  obtain ⟨includePlan, asDocuments⟩ := options
  cases includePlan with
  | false => exact .inl ⟨_, _, .noPlan responses⟩
  | true =>
    cases responses with
    | nil => exact .inr ⟨_, rfl, .missing rfl⟩
    | cons first rest =>
      cases first with
      | ok text => exact .inl ⟨_, _, .plan text rest⟩
      | error e => exact .inr ⟨_, rfl, .plan rfl e rest⟩

/-! ### The results -/

/-- Results are made of the documents that were read, and of the plan. -/
theorem ofResponses_eq_ok_iff {result : ResultSet} :
    ofResponses options responses = .ok result ↔
      ∃ rest ds, Splits options.includePlan responses result.plan rest ∧
        List.Forall₂ Reads rest ds ∧ ds.map (.ofDocument options.asDocuments) = result.records := by
  constructor
  · intro h
    rcases splits_or_stops options responses with ⟨plan, rest, hsplits⟩ | ⟨e, he, -⟩
    · rw [ofResponses_of_splits hsplits] at h
      obtain ⟨ds, hds, rfl⟩ := map_eq_ok_iff.1 h
      exact ⟨rest, ds, hsplits, decodeAll_eq_ok_iff.1 hds, rfl⟩
    · rw [he] at h
      cases h
  · intro hgiven
    obtain ⟨rest, ds, hsplits, hds, hrecords⟩ := hgiven
    rw [ofResponses_of_splits hsplits, decodeAll_eq_ok_iff.2 hds, Except.map, hrecords]

theorem ofResponses_eq_error_iff {e : Error} :
    ofResponses options responses = .error e ↔ Stops options.includePlan responses e := by
  constructor
  · intro h
    rcases splits_or_stops options responses with ⟨plan, rest, hsplits⟩ | ⟨other, he, hstops⟩
    · rw [ofResponses_of_splits hsplits, map_eq_error_iff, mapM_eq_error_iff] at h
      obtain ⟨before, failing, later, rfl, hbefore, hfaulty⟩ := h
      refine .record hsplits (fun response hmem => ?_) (decode_eq_error_iff.1 hfaulty)
      exact (hbefore response hmem).imp fun _ => decode_eq_ok_iff.1
    · rw [he] at h
      cases h
      exact hstops
  · intro hstops
    obtain ⟨includePlan, asDocuments⟩ := options
    cases hstops with
    | missing h =>
      cases h
      rfl
    | plan h =>
      cases h
      rfl
    | record hsplits hbefore hfaulty =>
      rw [ofResponses_of_splits hsplits, map_eq_error_iff, mapM_eq_error_iff]
      refine ⟨_, _, _, rfl, fun response hmem => ?_, decode_eq_error_iff.2 hfaulty⟩
      exact (hbefore response hmem).imp fun _ => decode_eq_ok_iff.2

/-- What can be asked of results of both kinds. -/
def view (r : ResultSet) : Option String × Nat × List (Entries Value) × List Document :=
  (r.plan, r.size, r.maps, r.toDocuments)

theorem view_ofDocument (asDocuments : Bool) (ds : List Document) (plan : Option String) :
    view ⟨ds.map (.ofDocument asDocuments), plan⟩ = (plan, ds.length, ds.map Document.root, ds) := by
  have hholds (d : Document) : Holds asDocuments (.ofDocument asDocuments d) d := holds_iff.2 rfl
  have hmaps : ds.map (ResultRecord.fields ∘ ResultRecord.ofDocument asDocuments) =
      ds.map Document.root := List.map_congr_left fun d _ => (hholds d).fields
  have hdocuments : ds.map (ResultRecord.toDocument ∘ ResultRecord.ofDocument asDocuments) = ds :=
    List.map_id'' (fun d => (hholds d).toDocument) ds
  simp only [view, size, maps, toDocuments, List.length_map, List.map_map, hmaps, hdocuments]

/-- What can be asked of results of both kinds is told by the documents that were read. -/
theorem map_view_ofResponses_eq_ok_iff {asDocuments : Bool} {count : Nat}
    {maps : List (Entries Value)} {ds : List Document} :
    (ofResponses { options with asDocuments } responses).map view = .ok (plan, count, maps, ds) ↔
      ∃ rest, Splits options.includePlan responses plan rest ∧ List.Forall₂ Reads rest ds ∧
        count = ds.length ∧ maps = ds.map Document.root := by
  rw [map_eq_ok_iff]
  constructor
  · intro hgiven
    obtain ⟨⟨records, plan⟩, hresult, hview⟩ := hgiven
    obtain ⟨rest, ds, hsplits, hds, rfl⟩ := ofResponses_eq_ok_iff.1 hresult
    rw [view_ofDocument] at hview
    cases hview
    exact ⟨rest, hsplits, hds, rfl, rfl⟩
  · intro hgiven
    obtain ⟨rest, hsplits, hds, rfl, rfl⟩ := hgiven
    exact ⟨_, ofResponses_eq_ok_iff.2 ⟨rest, ds, hsplits, hds, rfl⟩, view_ofDocument _ ds plan⟩

/-- What results are kept as is seen in nothing that can be asked of both kinds. -/
theorem map_view_ofResponses (options : ResultOptions) (responses : List Response)
    (asDocuments : Bool) :
    (ofResponses { options with asDocuments } responses).map view =
      (ofResponses options responses).map view := by
  cases h : ofResponses options responses with
  | error e =>
    have hstops := ofResponses_eq_error_iff.1 h
    exact map_eq_error_iff.2 (ofResponses_eq_error_iff.2 hstops)
  | ok result =>
    obtain ⟨rest, ds, hsplits, hds, hrecords⟩ := ofResponses_eq_ok_iff.1 h
    have hview : view result = (result.plan, ds.length, ds.map Document.root, ds) := by
      rw [← view_ofDocument options.asDocuments, hrecords]
    refine Eq.trans ?_ (congrArg Except.ok hview.symm)
    exact map_view_ofResponses_eq_ok_iff.2 ⟨rest, hsplits, hds, rfl, rfl⟩

/-- **Reading is complete, in order and all or nothing.** There are results exactly if the plan
is there where it is asked for, and every other response is the text of a document. They have the
plan as it was sent and one record for each of these responses, in their order, which holds the
document of its response. In any other case the error is that of the first response, in order, where
reading stops, or that there is no plan. Whatever the results are kept as, the plan, the count, the
maps and the documents that they give are told by the documents that were read, and the error is
the same. -/
theorem ofResponses_all_or_nothing (options : ResultOptions) (responses : List Response) :
    ((∃ result, ofResponses options responses = .ok result) ↔
      ∃ plan rest, Splits options.includePlan responses plan rest ∧
        ∀ response ∈ rest, ∃ d, Reads response d) ∧
    (∀ result, ofResponses options responses = .ok result ↔
      ∃ rest, Splits options.includePlan responses result.plan rest ∧
        List.Forall₂ (Records options.asDocuments) rest result.records) ∧
    (∀ e, ofResponses options responses = .error e ↔ Stops options.includePlan responses e) ∧
    (∀ asDocuments plan count maps ds,
      (ofResponses { options with asDocuments } responses).map view = .ok (plan, count, maps, ds) ↔
        ∃ rest, Splits options.includePlan responses plan rest ∧ List.Forall₂ Reads rest ds ∧
          count = ds.length ∧ maps = ds.map Document.root) ∧
    ∀ asDocuments, (ofResponses { options with asDocuments } responses).map view =
      (ofResponses options responses).map view := by
  refine ⟨?_, fun result => ?_, fun _ => ofResponses_eq_error_iff,
    fun _ _ _ _ _ => map_view_ofResponses_eq_ok_iff, map_view_ofResponses options responses⟩
  · constructor
    · intro hgiven
      obtain ⟨result, h⟩ := hgiven
      obtain ⟨rest, ds, hsplits, hds, -⟩ := ofResponses_eq_ok_iff.1 h
      exact ⟨result.plan, rest, hsplits, (exists_forall₂_reads_iff rest).1 ⟨ds, hds⟩⟩
    · intro hgiven
      obtain ⟨plan, rest, hsplits, hreads⟩ := hgiven
      obtain ⟨ds, hds⟩ := (exists_forall₂_reads_iff rest).2 hreads
      exact ⟨⟨_, plan⟩, ofResponses_eq_ok_iff.2 ⟨rest, ds, hsplits, hds, rfl⟩⟩
  · simp only [ofResponses_eq_ok_iff, forall₂_records_iff, exists_and_left]

/-- A text that is no document is told, and not the error of the store behind it. -/
example (e : Error) :
    ofResponses ⟨true, true⟩ [.ok "plan", .ok "\x7b\x7d", .ok "7", .error e] =
      .error (.because .serialization "document root must be a JSON object, got 7") := by
  cbv

end DocumentModel.ResultSet
