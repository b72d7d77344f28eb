import RubyInlay.Proofs.Uri.Authority
import RubyInlay.Server.Session

/-! Requests that are refused. A document that cannot be read leaves a request without hints, but
the URI is read before that, and a fault in it refuses the request. Main statement: a request is
answered exactly if the document it names, as far as it is set, is an object, the URI in that, as
far as it is set, is a text, and the authority of the URI is sound. The settings, the documents and
the range make no difference. -/

namespace RubyInlay.Server

open Uri (authorityOf)
open Uri.Authority (Sound error? error?_eq_none_iff)

variable {w : Workspace} {settings : Settings} {params : Json} {uri : String}
  {error : RequestError}

/-- Why parameters are refused. -/
inductive Fault (params : Json) : RequestError → Prop
  | document {value : Json} (hd : params.get? "textDocument" = some value) (hset : value.isSet)
      (hv : ∀ entries, value ≠ .object entries) : Fault params .documentNotAnObject
  | uri {entries : Json.Entries} {value : Json}
      (hd : params.get? "textDocument" = some (.object entries))
      (hu : entries.get? "uri" = some value) (hset : value.isSet)
      (hv : ∀ uri, value ≠ .text uri) : Fault params .uriNotAText
  | authority {entries : Json.Entries} {uri : String} {e : UriError}
      (hd : params.get? "textDocument" = some (.object entries))
      (hu : entries.get? "uri" = some (.text uri))
      (he : error? (authorityOf uri.toList) = some e) : Fault params (.malformedUri e)

/-- A document that is set is an object, a URI that is set in it is a text, and its authority is
sound. -/
def Answerable (params : Json) : Prop :=
  ∀ document, params.get? "textDocument" = some document → document.isSet →
    ∃ entries : Json.Entries, document = .object entries ∧
      ∀ value, entries.get? "uri" = some value → value.isSet →
        ∃ uri, value = .text uri ∧ Sound (authorityOf uri.toList)

/-- The parameters hold a document with a URI that is not empty. -/
def NamesUri (params : Json) (uri : String) : Prop :=
  uri ≠ "" ∧ ∃ entries : Json.Entries, params.get? "textDocument" = some (.object entries) ∧
    entries.get? "uri" = some (.text uri)

/-- The parameters are no object, or they hold no document that is set, or none with a URI that is
set. -/
inductive NamesNothing (params : Json) : Prop
  | parameters (h : ∀ entries, params ≠ .object entries)
  | document (h : ∀ document, params.get? "textDocument" = some document → ¬ document.isSet)
  | uri {entries : Json.Entries} (hd : params.get? "textDocument" = some (.object entries))
      (h : ∀ value, entries.get? "uri" = some value → ¬ value.isSet)

/-! ### Faults -/

theorem isSet_object_of_get? {entries : Json.Entries} {key : String} {value : Json}
    (h : entries.get? key = some value) : (Json.object entries).isSet := by
  cases entries with
  | nil => cases h
  | cons => rfl

/-- An empty URI has no authority, so one with a fault is set. -/
theorem ne_empty_of_error? {uri : String} {e : UriError}
    (he : error? (authorityOf uri.toList) = some e) : uri ≠ "" := by
  rintro rfl
  cases he

theorem answerable_iff : Answerable params ↔ ∀ error, ¬ Fault params error := by
  constructor
  · intro ha error hf
    cases hf with
    | document hd hset hv =>
      obtain ⟨entries, he, -⟩ := ha _ hd hset
      exact hv entries he
    | uri hd hu hset hv =>
      obtain ⟨_, he', hvalue⟩ := ha _ hd (isSet_object_of_get? hu)
      cases he'
      obtain ⟨uri, he, -⟩ := hvalue _ hu hset
      exact hv uri he
    | authority hd hu he =>
      obtain ⟨_, he', hvalue⟩ := ha _ hd (isSet_object_of_get? hu)
      cases he'
      obtain ⟨_, he', hsound⟩ := hvalue _ hu (bne_iff_ne.2 (ne_empty_of_error? he))
      cases he'
      rw [error?_eq_none_iff.2 hsound] at he
      cases he
  · intro hno document hd hset
    cases document with
    | object entries =>
      refine ⟨entries, rfl, fun value hu hvset => ?_⟩
      cases value with
      | text uri =>
        have hnone := Option.eq_none_iff_forall_ne_some.2 fun e he => hno _ (.authority hd hu he)
        exact ⟨uri, rfl, error?_eq_none_iff.1 hnone⟩
      | null | bool | int | float | list | object =>
        exact absurd (.uri hd hu hvset (by simp)) (hno _)
    | null | bool | int | float | text | list =>
      exact absurd (.document hd hset (by simp)) (hno _)

/-! ### The URI -/

theorem eq_object_of_get? {value : Json} {key : String} (hd : params.get? key = some value) :
    ∃ entries : Json.Entries, params = .object entries ∧ entries.get? key = some value := by
  cases params with
  | object entries => exact ⟨entries, rfl, hd⟩
  | null | bool | int | float | text | list => cases hd

theorem requestedUri?_of_document {document : Json}
    (hd : params.get? "textDocument" = some document) (hv : ∀ entries, document ≠ .object entries) :
    requestedUri? params =
      if document.isSet then .error .documentNotAnObject else .ok none := by
  obtain ⟨_, rfl, hps⟩ := eq_object_of_get? hd
  cases document with
  | object entries => exact absurd rfl (hv entries)
  | null | bool | int | float | text | list => simp [requestedUri?, hps]

theorem requestedUri?_of_value {entries : Json.Entries} {value : Json}
    (hd : params.get? "textDocument" = some (.object entries))
    (hu : entries.get? "uri" = some value) (hv : ∀ uri, value ≠ .text uri) :
    requestedUri? params = if value.isSet then .error .uriNotAText else .ok none := by
  obtain ⟨_, rfl, hps⟩ := eq_object_of_get? hd
  cases value with
  | text uri => exact absurd rfl (hv uri)
  | null | bool | int | float | list | object => simp [requestedUri?, hps, hu]

theorem requestedUri?_of_text {entries : Json.Entries} {uri : String}
    (hd : params.get? "textDocument" = some (.object entries))
    (hu : entries.get? "uri" = some (.text uri)) :
    requestedUri? params = .ok (if uri = "" then none else some uri) := by
  obtain ⟨_, rfl, hps⟩ := eq_object_of_get? hd
  simp [requestedUri?, hps, hu]

theorem requestedUri?_of_namesUri (h : NamesUri params uri) :
    requestedUri? params = .ok (some uri) := by
  obtain ⟨hne, entries, hd, hu⟩ := h
  rw [requestedUri?_of_text hd hu, if_neg hne]

theorem requestedUri?_of_namesNothing (h : NamesNothing params) :
    requestedUri? params = .ok none := by
  cases h with
  | parameters h =>
    cases params with
    | object entries => exact absurd rfl (h entries)
    | null | bool | int | float | text | list => rfl
  | document h =>
    cases hd : params.get? "textDocument" with
    | none =>
      cases params with
      | object entries => rw [Json.get?_object] at hd; simp [requestedUri?, hd]
      | null | bool | int | float | text | list => rfl
    | some document =>
      by_cases hv : ∃ entries, document = .object entries
      · obtain ⟨entries, rfl⟩ := hv
        obtain rfl : entries = [] := by simpa [Json.isSet] using h _ hd
        obtain ⟨_, rfl, hps⟩ := eq_object_of_get? hd
        have huri : Json.Entries.get? [] "uri" = none := rfl
        simp [requestedUri?, hps, huri]
      · rw [requestedUri?_of_document hd (not_exists.1 hv), if_neg (h document hd)]
  | @uri entries hd h =>
    cases hu : entries.get? "uri" with
    | none =>
      obtain ⟨_, rfl, hps⟩ := eq_object_of_get? hd
      simp [requestedUri?, hps, hu]
    | some value =>
      by_cases ht : ∃ uri, value = .text uri
      · obtain ⟨uri, rfl⟩ := ht
        have hempty : uri = "" := by simpa [Json.isSet] using h _ hu
        rw [requestedUri?_of_text hd hu, if_pos hempty]
      · rw [requestedUri?_of_value hd hu (not_exists.1 ht), if_neg (h value hu)]

/-- Parameters are at fault, name nothing or name a URI. -/
theorem fault_or_names (params : Json) :
    (∃ error, Fault params error) ∨ NamesNothing params ∨ ∃ uri, NamesUri params uri := by
  cases hd : params.get? "textDocument" with
  | none => exact .inr (.inl (.document (by simp [hd])))
  | some document =>
    by_cases hset : document.isSet
    · by_cases hv : ∃ entries, document = .object entries
      · obtain ⟨entries, rfl⟩ := hv
        cases hu : Json.Entries.get? entries "uri" with
        | none => exact .inr (.inl (.uri hd (by simp [hu])))
        | some value =>
          by_cases hvset : value.isSet
          · by_cases ht : ∃ uri, value = .text uri
            · obtain ⟨uri, rfl⟩ := ht
              exact .inr (.inr ⟨uri, bne_iff_ne.1 hvset, entries, hd, hu⟩)
            · exact .inl ⟨_, .uri hd hu hvset (not_exists.1 ht)⟩
          · exact .inr (.inl (.uri hd (by simpa [hu] using hvset)))
      · exact .inl ⟨_, .document hd hset (not_exists.1 hv)⟩
    · exact .inr (.inl (.document (by simpa [hd] using hset)))

theorem answer_of_fault (h : Fault params error) : answer w settings params = .error error := by
  cases h with
  | document hd hset hv => rw [answer, requestedUri?_of_document hd hv, if_pos hset]
  | uri hd hu hset hv => rw [answer, requestedUri?_of_value hd hu hv, if_pos hset]
  | authority hd hu he =>
    rw [answer, requestedUri?_of_namesUri ⟨ne_empty_of_error? he, _, hd, hu⟩]
    dsimp only
    rw [namesRubyFile_eq_error_iff.2 he]

theorem answer_eq_error_iff : answer w settings params = .error error ↔ Fault params error := by
  constructor
  · intro h
    obtain ⟨e, hf⟩ | hn | ⟨uri, hn⟩ := fault_or_names params
    · cases h.symm.trans (answer_of_fault hf)
      exact hf
    · simp [answer, requestedUri?_of_namesNothing hn] at h
    · obtain ⟨-, entries, hd, hu⟩ := id hn
      simp only [answer, requestedUri?_of_namesUri hn] at h
      split at h
      · cases h
        exact .authority hd hu (namesRubyFile_eq_error_iff.1 ‹_›)
      · cases h
      · cases h
  · exact answer_of_fault

/-! ### Requests -/

theorem reply_eq_annotated_iff {s : Session} {result : Annotated} (h : s.handles) :
    s.reply (.request params) = .annotated result ↔
      answer s.workspace s.settings params = .ok result := by
  rw [Session.reply, if_pos h]
  cases answer s.workspace s.settings params <;> simp

theorem reply_eq_refused_iff {s : Session} (h : s.handles) :
    s.reply (.request params) = .refused error ↔ Fault params error := by
  rw [Session.reply, if_pos h, ← answer_eq_error_iff]
  cases answer s.workspace s.settings params <;> simp

theorem exists_answer_iff : (∃ result, answer w settings params = .ok result) ↔
    Answerable params := by
  rw [answerable_iff]
  constructor
  · rintro ⟨result, ha⟩ error hf
    cases ha.symm.trans (answer_eq_error_iff.2 hf)
  · intro hno
    cases ha : answer w settings params with
    | ok result => exact ⟨result, rfl⟩
    | error e => exact absurd (answer_eq_error_iff.1 ha) (hno e)

/-- With the handler set up, a request is answered exactly if its parameters are answerable, and
refused for their fault otherwise. A document that cannot be read has no hints. -/
theorem request_answered_iff (s : Session) (params : Json) (h : s.handles) :
    ((∃ result, s.reply (.request params) = .annotated result) ↔ Answerable params) ∧
    (∀ error, s.reply (.request params) = .refused error ↔ Fault params error) ∧
    ∀ uri reason, requestedUri? params = .ok (some uri) → namesRubyFile uri = .ok true →
      s.workspace.read uri = .error reason →
        s.reply (.request params) = .annotated ⟨[], [.requestFailed uri reason]⟩ := by
  refine ⟨?_, fun error => reply_eq_refused_iff h, fun uri reason hr hn hw => ?_⟩
  · simp only [reply_eq_annotated_iff h]
    exact exists_answer_iff
  · rw [reply_eq_annotated_iff h]
    simp only [answer, hr, hn, annotateStored, hw]

/-! A document that the workspace does not have, and one under a URI with an opening bracket. -/

def requestForMissing : Json :=
  .object [("textDocument", .object [("uri", .text "file:///a.rb")]), ("range", .list [])]

theorem answerable_requestForMissing : Answerable requestForMissing := by
  intro document hd hset
  cases hd
  refine ⟨_, rfl, fun value hu hvset => ?_⟩
  cases hu
  exact ⟨_, rfl, error?_eq_none_iff.1 rfl⟩

theorem missing_document_answered :
    (Session.start.next .setUp).handles ∧ Answerable requestForMissing ∧
    (∃ result, (Session.start.next .setUp).reply (.request requestForMissing) =
      .annotated result) ∧
    requestedUri? requestForMissing = .ok (some "file:///a.rb") ∧
    namesRubyFile "file:///a.rb" = .ok true ∧
    (Session.start.next .setUp).workspace.read "file:///a.rb" =
      .error "no document file:///a.rb" ∧
    (Session.start.next .setUp).reply (.request requestForMissing) =
      .annotated ⟨[], [.requestFailed "file:///a.rb" "no document file:///a.rb"]⟩ := by
  have ⟨hanswered, _, hmissing⟩ :=
    request_answered_iff (Session.start.next .setUp) requestForMissing rfl
  exact ⟨rfl, answerable_requestForMissing, hanswered.2 answerable_requestForMissing, rfl, rfl, rfl,
    hmissing _ _ rfl rfl rfl⟩

def requestWithOpenBracket : Json :=
  .object [("textDocument", .object [("uri", .text "file://[/a.rb")])]

theorem open_bracket_refused :
    (Session.start.next .setUp).handles ∧
    (Session.start.next .setUp).reply (.request requestWithOpenBracket) =
      .refused (.malformedUri .unpairedBracket) ∧
    ¬ ∃ result, (Session.start.next .setUp).reply (.request requestWithOpenBracket) =
      .annotated result := by
  have hrefused : (Session.start.next .setUp).reply (.request requestWithOpenBracket) =
      .refused (.malformedUri .unpairedBracket) := rfl
  refine ⟨rfl, hrefused, ?_⟩
  rintro ⟨result, hr⟩
  cases hrefused.symm.trans hr

end RubyInlay.Server
