import Mathlib.Data.Finset.Insert
import RubyInlay.Proofs.History
import RubyInlay.Proofs.SinglePass
import RubyInlay.Server.Session

/-! Sessions and what came before. A session keeps the settings, the documents and whether requests
are handled; each of them is what the latest step of its sort has left. Main statement: the reply to
a request is that of the handler, under the latest settings and with the latest document under the
URI in question, if the handler has been set up, and the steps that leave nothing behind can be
taken out of a session without a change to the replies to the others. -/

namespace RubyInlay.Server

variable {before : List Step} {settings settings' : Settings} {params : Json}

/-! ### Histories -/

def Step.settings? : Step → Option Settings
  | .settings settings => some settings
  | _ => none

/-- What a step stores under a URI. -/
def Step.stored? (uri : String) : Step → Option Stored
  | .document u stored => if u = uri then some stored else none
  | _ => none

/-- The settings given last. -/
def settingsAfter (before : List Step) : Settings :=
  (latest? Step.settings? before).getD .empty

/-- What has been stored last under a URI. -/
def storedAfter (before : List Step) (uri : String) : Option Stored :=
  latest? (Step.stored? uri) before

/-- No entry of the settings declines hints. -/
def Offered (settings : Settings) : Prop :=
  ∀ value, settings.entries.get? "enabled" = some value → value.isSet

/-- The handler has been set up: there was a step to do so, and the settings at the latest one offer
hints. -/
def HandlerSetUp (before : List Step) : Prop :=
  ∃ earlier since, Latest (· = .setUp) before earlier .setUp since ∧
    Offered (settingsAfter earlier)

/-- A workspace with no more in it than what has been stored last under the URI that a request
names. -/
def requestedWorkspace (before : List Step) (params : Json) : Workspace :=
  match requestedUri? params with
  | .ok (some uri) => ((storedAfter before uri).map (uri, ·)).toList
  | _ => []

/-- The reply to a request after a history. -/
inductive RequestReply (before : List Step) (params : Json) : Reply → Prop
  | noHandler (h : ¬ HandlerSetUp before) : RequestReply before params .noHandler
  | annotated {result : Annotated} (h : HandlerSetUp before)
      (ha : answer (requestedWorkspace before params) (settingsAfter before) params = .ok result) :
      RequestReply before params (.annotated result)
  | refused {error : RequestError} (h : HandlerSetUp before)
      (ha : answer (requestedWorkspace before params) (settingsAfter before) params =
        .error error) :
      RequestReply before params (.refused error)

/-- The steps that leave nothing behind. -/
inductive Step.Passive : Step → Prop
  | defaults : Passive .defaults
  | request (params : Json) : Passive (.request params)
  | experimental (announced : Bool) : Passive (.experimental announced)
  | amend (available : Bool) (caps : Capabilities) (times : Nat) :
      Passive (.amend available caps times)

section Without
variable {α : Type}

/-- A list without what stands at some positions; its head stands at `i`. -/
def withoutFrom (i : ℕ) (deleted : Finset ℕ) : List α → List α
  | [] => []
  | x :: xs =>
    if i ∈ deleted then withoutFrom (i + 1) deleted xs else x :: withoutFrom (i + 1) deleted xs

def without (deleted : Finset ℕ) (xs : List α) : List α :=
  withoutFrom 0 deleted xs

end Without

/-! ### Answers -/

theorem offersHints_iff : settings.offersHints ↔ Offered settings := by
  unfold Settings.offersHints Offered Settings.enabledKey
  cases settings.entries.get? "enabled" <;> simp [Json.isSet]

theorem shows_congr
    (h : ∀ key, key ≠ "enabled" → settings'.entries.get? key = settings.entries.get? key)
    (f : Feature) : settings'.shows f = settings.shows f := by
  have hall := h Settings.enableAllKey (by decide)
  have hkey := h f.key (by cases f <;> decide)
  simp only [Settings.shows, Settings.isOn, Settings.isSet, hall, hkey]

theorem annotate_congr (h : ∀ f, settings'.shows f = settings.shows f) (d : Document)
    (window : Option Window) : annotate d ⟨window, settings'⟩ = annotate d ⟨window, settings⟩ := by
  have hint : Collector.hint? ⟨window, settings'⟩ = Collector.hint? ⟨window, settings⟩ := by
    funext n
    cases n <;> simp only [Collector.hint?, h]
  simp only [annotate_eq, hint]

/-- An answer reads the switches of its features and the document under the requested URI. -/
theorem answer_congr {w w' : Workspace} (hs : ∀ f, settings'.shows f = settings.shows f)
    (hw : ∀ uri, requestedUri? params = .ok (some uri) → w'.read uri = w.read uri) :
    answer w' settings' params = answer w settings params := by
  unfold answer
  cases h : requestedUri? params with
  | error e => rfl
  | ok requested =>
    cases requested with
    | none => rfl
    | some uri =>
      have ha (window : Option Window) : annotateStored w' uri ⟨window, settings'⟩ =
          annotateStored w uri ⟨window, settings⟩ := by
        unfold annotateStored
        rw [hw uri h]
        cases w.read uri with
        | ok d => exact annotate_congr hs d window
        | error reason => rfl
      simp only [ha]

/-! ### States -/

/-- What is left behind by some steps. -/
def Session.after (s : Session) (steps : List Step) : Session :=
  steps.foldl Session.next s

namespace Session

@[simp] theorem after_nil (s : Session) : s.after [] = s := rfl

@[simp] theorem after_cons (s : Session) (x : Step) (steps : List Step) :
    s.after (x :: steps) = (s.next x).after steps := rfl

@[simp] theorem after_concat (s : Session) (before : List Step) (x : Step) :
    s.after (before ++ [x]) = (s.after before).next x := by
  simp [after]

theorem getElem?_replies (s : Session) (before : List Step) (x : Step) (later : List Step) :
    (s.replies (before ++ x :: later))[before.length]? = some ((s.after before).reply x) := by
  induction before generalizing s with
  | nil => rfl
  | cons y before ih => simpa using ih (s.next y)

theorem settings_after (before : List Step) :
    (start.after before).settings = settingsAfter before := by
  induction before using List.reverseRecOn with
  | nil => rfl
  | append_singleton before x ih =>
    rw [after_concat, settingsAfter, latest?_concat]
    cases x with
    | settings settings => rfl
    | document | defaults | setUp | request | experimental | amend => exact ih

theorem lookup_after (before : List Step) (uri : String) :
    List.lookup uri (start.after before).workspace = storedAfter before uri := by
  induction before using List.reverseRecOn with
  | nil => rfl
  | append_singleton before x ih =>
    rw [after_concat, storedAfter, latest?_concat]
    cases x with
    | document u stored =>
      by_cases hu : u = uri
      · simp [next, Workspace.put, Step.stored?, hu]
      · have hne : (uri == u) = false := beq_eq_false_iff_ne.2 (Ne.symm hu)
        simpa [next, Workspace.put, Step.stored?, hu, List.lookup_cons, hne, storedAfter] using ih
    | settings | defaults | setUp | request | experimental | amend => exact ih

theorem handlerSetUp_concat {x : Step} : HandlerSetUp (before ++ [x]) ↔
    x = .setUp ∧ Offered (settingsAfter before) ∨ x ≠ .setUp ∧ HandlerSetUp before := by
  simp only [HandlerSetUp, Latest.concat_iff]
  constructor
  · rintro ⟨earlier, since, ⟨rfl, -, -, hx⟩ | ⟨since', -, hx, h⟩, ho⟩
    · exact .inl ⟨hx, ho⟩
    · exact .inr ⟨hx, earlier, since', h, ho⟩
  · rintro (⟨hx, ho⟩ | ⟨hx, earlier, since, h, ho⟩)
    · exact ⟨before, [], .inl ⟨rfl, hx.symm, rfl, hx⟩, ho⟩
    · exact ⟨earlier, since ++ [x], .inr ⟨since, rfl, hx, h⟩, ho⟩

theorem handles_after (before : List Step) :
    (start.after before).handles ↔ HandlerSetUp before := by
  induction before using List.reverseRecOn with
  | nil =>
    constructor
    · intro h; cases h
    · rintro ⟨earlier, since, h, -⟩; exact h.not_nil.elim
  | append_singleton before x ih =>
    rw [after_concat, handlerSetUp_concat]
    cases x with
    | setUp => simp [next, settings_after, offersHints_iff]
    | settings | document | defaults | request | experimental | amend => simpa [next] using ih

theorem answer_after (before : List Step) (params : Json) :
    answer (start.after before).workspace (start.after before).settings params =
      answer (requestedWorkspace before params) (settingsAfter before) params := by
  rw [settings_after]
  refine answer_congr (fun _ => rfl) fun uri h => ?_
  have hr : requestedWorkspace before params =
      ((storedAfter before uri).map (uri, ·)).toList := by
    rw [requestedWorkspace, h]
  rw [Workspace.read, Workspace.read, lookup_after, hr]
  cases storedAfter before uri <;> simp

theorem requestReply_iff {r : Reply} :
    RequestReply before params r ↔ (start.after before).reply (.request params) = r := by
  rw [reply, answer_after]
  by_cases h : HandlerSetUp before
  · rw [if_pos ((handles_after before).2 h)]
    constructor
    · rintro (h' | ⟨-, ha⟩ | ⟨-, ha⟩)
      · exact absurd h h'
      · rw [ha]
      · rw [ha]
    · rintro rfl
      split
      · rename_i ha; exact .annotated h ha
      · rename_i ha; exact .refused h ha
  · rw [if_neg (mt (handles_after before).1 h)]
    constructor
    · rintro (- | ⟨h', -⟩ | ⟨h', -⟩)
      · rfl
      · exact absurd h' h
      · exact absurd h' h
    · rintro rfl
      exact .noHandler h

/-! ### Passive steps -/

theorem next_of_passive {x : Step} (h : x.Passive) (s : Session) : s.next x = s := by
  cases h <;> rfl

theorem replies_withoutFrom (i : ℕ) (deleted : Finset ℕ) (s : Session) (steps : List Step)
    (h : ∀ j x, steps[j]? = some x → i + j ∈ deleted → x.Passive) :
    s.replies (withoutFrom i deleted steps) = withoutFrom i deleted (s.replies steps) := by
  induction steps generalizing i s with
  | nil => rfl
  | cons x steps ih =>
    have hrest (s : Session) : s.replies (withoutFrom (i + 1) deleted steps) =
        withoutFrom (i + 1) deleted (s.replies steps) := by
      refine ih (i + 1) s fun j y hy hj => h (j + 1) y hy ?_
      rwa [show i + (j + 1) = i + 1 + j by omega]
    by_cases hi : i ∈ deleted
    · have hx := next_of_passive (h 0 x rfl hi) s
      simp only [withoutFrom, replies_cons, if_pos hi, hx, hrest]
    · simp only [withoutFrom, replies_cons, if_neg hi, hrest]

end Session

/-! ### Sessions -/

/-- A request finds the settings, the documents and the handler that the latest steps have left: the
entry that declines hints counts when the handler is set up, the others at the request. The replies
to the other steps stay as they are when passive ones are taken out. -/
theorem session_determined_by_history :
    (∀ (before later : List Step) (params : Json), ∃ r,
      (Session.start.replies (before ++ .request params :: later))[before.length]? = some r ∧
        RequestReply before params r) ∧
    (∀ (before : List Step) (settings : Settings),
      (∀ key, key ≠ "enabled" →
        settings.entries.get? key = (settingsAfter before).entries.get? key) →
      ∀ params r, RequestReply (before ++ [.settings settings]) params r ↔
        RequestReply before params r) ∧
    ∀ (steps : List Step) (deleted : Finset ℕ),
      (∀ i x, steps[i]? = some x → i ∈ deleted → x.Passive) →
        Session.start.replies (without deleted steps) =
          without deleted (Session.start.replies steps) := by
  refine ⟨fun before later params => ?_, fun before settings h params r => ?_,
    fun steps deleted h => ?_⟩
  · exact ⟨_, Session.getElem?_replies .start before (.request params) later,
      Session.requestReply_iff.2 rfl⟩
  · rw [Session.requestReply_iff, Session.requestReply_iff, Session.after_concat]
    have ha : answer (Session.start.after before).workspace settings params =
        answer (Session.start.after before).workspace (Session.start.after before).settings
          params := by
      rw [Session.settings_after]
      exact answer_congr (shows_congr h) fun _ _ => rfl
    simp only [Session.reply, Session.next, ha]
  · exact Session.replies_withoutFrom 0 deleted .start steps fun j x hx hj =>
      h j x hx (by rwa [Nat.zero_add] at hj)

/-! The URI of the first request cannot be taken apart, and then the settings decline hints. The
handler goes on to answer, here about a document that is not there. -/

def requestFor (uri : String) : Json :=
  .object [("textDocument", .object [("uri", .text uri)])]

def servingAll : List Step :=
  [.settings ⟨[("enableAll", .bool true)]⟩, .setUp, .request (requestFor "file://[/a.rb")]

def declining : Settings := ⟨[("enabled", .bool false), ("enableAll", .bool true)]⟩

def stillServing : List Step :=
  servingAll ++ [.settings declining, .request (requestFor "file:///a.rb")]

theorem refused_request_leaves_no_trace :
    (Session.start.replies stillServing)[2]? = some (.refused (.malformedUri .unpairedBracket)) ∧
    (Session.start.replies stillServing)[4]? = some (.annotated
      ⟨[], [.requestFailed "file:///a.rb" "no document file:///a.rb"]⟩) ∧
    (∀ i x, stillServing[i]? = some x → i ∈ ({2} : Finset ℕ) → x.Passive) ∧
    Session.start.replies (without {2} stillServing) =
      without {2} (Session.start.replies stillServing) ∧
    (∀ key, key ≠ "enabled" →
      declining.entries.get? key = (settingsAfter servingAll).entries.get? key) ∧
    ∀ params r, RequestReply (servingAll ++ [.settings declining]) params r ↔
      RequestReply servingAll params r := by
  have hpassive : ∀ i x, stillServing[i]? = some x → i ∈ ({2} : Finset ℕ) → x.Passive := by
    intro i x hx hi
    obtain rfl : i = 2 := Finset.mem_singleton.1 hi
    cases hx
    exact .request _
  have hsettings : ∀ key, key ≠ "enabled" →
      declining.entries.get? key = (settingsAfter servingAll).entries.get? key := by
    intro key hkey
    have hne : (Json.text "enabled").key? ≠ some (.text key) := by
      simpa [Json.key?] using hkey.symm
    rw [declining, Settings.Entries.get?_cons, if_neg hne]
    rfl
  exact ⟨rfl, rfl, hpassive, session_determined_by_history.2.2 stillServing {2} hpassive, hsettings,
    session_determined_by_history.2.1 servingAll declining hsettings⟩

end RubyInlay.Server
