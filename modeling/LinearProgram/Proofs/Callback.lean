import Mathlib.Data.List.DropRight
import LinearProgram.Callback
import LinearProgram.Proofs.Action
import LinearProgram.Proofs.Cancel.Deadline
import LinearProgram.Proofs.Text.Utf8

/-!
# Callbacks return

A native library that calls back must get an answer, whatever stands behind the handle that it offers. A poll
answers "stop" exactly for a context that is done; a message reaches the printer behind the handle exactly once,
if there is one that works. Where something goes wrong on the way, one record is written and the library is told
to go on.

Nothing is assumed of the registry, of the handle or of the contexts.
-/

namespace LinearProgram

/-! ## §1 The text of a message -/

namespace Text

variable {s : String}

theorem toList_withoutFinalNewlines (s : String) :
    (withoutFinalNewlines s).toList = s.toList.rdropWhile (· == '\n') := by
  rw [withoutFinalNewlines, String.toList_ofList]
  rfl

/-- What is dropped at the end is line feeds. -/
theorem withoutFinalNewlines_append (s : String) :
    ∃ n, s.toList = (withoutFinalNewlines s).toList ++ List.replicate n '\n' := by
  have hall : ∀ c ∈ s.toList.rtakeWhile (· == '\n'), c = '\n' := fun c hc => by
    simpa using List.mem_rtakeWhile_imp hc
  refine ⟨(s.toList.rtakeWhile (· == '\n')).length, ?_⟩
  rw [toList_withoutFinalNewlines, ← List.eq_replicate_of_mem hall, List.rdropWhile_append_rtakeWhile]

/-- No line feed is left at the end. -/
theorem getLast?_withoutFinalNewlines (s : String) :
    (withoutFinalNewlines s).toList.getLast? ≠ some '\n' := by
  rw [toList_withoutFinalNewlines]
  intro hlast
  have hne : s.toList.rdropWhile (· == '\n') ≠ [] := fun hnil => by simp [hnil] at hlast
  rw [List.getLast?_eq_some_getLast hne] at hlast
  exact List.rdropWhile_last_not _ _ hne (by simpa using hlast)

/-- Nothing but the line feeds at the end is dropped. -/
theorem withoutFinalNewlines_eq {t : String} (hend : t.toList.getLast? ≠ some '\n') {n : Nat}
    (hs : s.toList = t.toList ++ List.replicate n '\n') : withoutFinalNewlines s = t := by
  refine String.toList_inj.mp ?_
  rw [toList_withoutFinalNewlines, hs]
  clear hs
  induction n with
  -- nothing to strip: the text ends in another character
  | zero =>
    rw [List.replicate_zero, List.append_nil, List.rdropWhile_eq_self_iff]
    intro hne hlast
    refine hend ?_
    rw [List.getLast?_eq_some_getLast hne]
    simpa using hlast
  | succ n ih => rw [List.replicate_succ', ← List.append_assoc, List.rdropWhile_concat_pos _ _ _ rfl, ih]

end Text

/-- The printer passes on what it is given. -/
def Printer.works : Printer → Bool
  | .recording | .silent | .log .. => true
  | .broken => false

/-- What has been written once a printer has passed one text on. -/
def Printer.passOn (p : Printer) (text : String) (w : Writings) : Writings :=
  match p with
  | .recording => { w with messages := w.messages.push text }
  | .log source level => w.log level source text
  | .silent | .broken => w

/-- A printer passes a text on as it is, unless it drops what ends a line or fails altogether. -/
theorem Printer.print_text (p : Printer) {text : String} (hne : text ≠ "")
    (hend : text.toList.getLast? ≠ some '\n') (w : Writings) :
    p.print w [.text text] = if p.works then some (p.passOn text w) else none := by
  have hjoined : Printer.joined [.text text] = text := rfl
  -- the text ends in no newline, so stripping leaves it alone
  have hkept : Text.withoutFinalNewlines text = text :=
    Text.withoutFinalNewlines_eq hend (n := 0) (List.append_nil text.toList).symm
  cases p with
  | log source level => simp [print, works, passOn, hjoined, hkept, hne]
  | recording => simp [print, works, passOn, hjoined]
  | silent | broken => rfl

/-! ## §2 What is behind a handle -/

namespace World

variable {w : World} {h : Handle} {target : Target}

/-- The object that a callback finds behind a handle. Null counts as nothing. -/
def behind? (w : World) (h : Handle) : Option Target :=
  match w.registry.resolve h with
  | some (.plain .null) => none
  | found => found

/-- The printer that an object has. -/
def printer? (w : World) : Target → Option Printer
  | .model m => (w.model? m).map (·.printer)
  | .holder p => some p
  | .context _ | .plain _ => none

/-- The state with one more record, that of a callback in which something went wrong. -/
def reported (w : World) (text : String) : World :=
  let r : LogRecord := ⟨LogRecord.error, callbackSource, text⟩
  { w with writings := { w.writings with records := w.writings.records.push r } }

/-- The log keeps the records of callbacks. -/
theorem log_error (w : World) (text : String) : w.log LogRecord.error callbackSource text = w.reported text := by
  have hkept : (⟨LogRecord.error, callbackSource, text⟩ : LogRecord).isKept = true := by
    have hsource : ((callbackSource == "lpbridge") || Text.startsWith "lpbridge." callbackSource) = true := rfl
    simp [LogRecord.isKept, LogRecord.error, LogRecord.debug, hsource]
  simp only [log, Writings.log, hkept, if_true, reported]

/-- What a callback does when the handle leads to nothing, and when it leads to something. -/
theorem behind?_cases (w : World) (h : Handle) :
    (w.behind? h = none ∧ (w.registry.resolve h = none ∨ w.registry.resolve h = some (.plain .null))) ∨
      ∃ target, w.behind? h = some target ∧ w.registry.resolve h = some target ∧ target ≠ .plain .null := by
  unfold behind?
  split
  · next heq => exact Or.inl ⟨rfl, Or.inr heq⟩
  · -- the target is no null pointer, so it is found as registered
    next hnull =>
    rcases hr : w.registry.resolve h with _ | target
    · exact Or.inl ⟨rfl, Or.inl rfl⟩
    · exact Or.inr ⟨target, rfl, rfl, fun heq => hnull (heq ▸ hr)⟩

/-- What a poll with a handle comes to: its answer and the state after it. -/
structure AfterPoll (w : World) (h : Handle) (stop : Bool) (w' : World) : Prop where
  registry_eq : w'.registry = w.registry
  stop_iff : stop = true ↔
    ∃ c, w.registry.resolve h = some (.context c) ∧ (w.contexts.error w.clock c).1 ≠ none
  context : ∀ c, w.behind? h = some (.context c) →
    w' = { w with contexts := (w.contexts.error w.clock c).2 }
  nothing : w.behind? h = none → w' = w
  failed : ∀ target, w.behind? h = some target → (∀ c, target ≠ .context c) → w' = w.reported "abort poll failed"

/-- What a message with a handle comes to, given its text without line feeds at the end. -/
structure AfterMessage (w : World) (h : Handle) (text : String) (w' : World) : Prop where
  registry_eq : w'.registry = w.registry
  delivered : ∀ target p, w.behind? h = some target → text ≠ "" → w.printer? target = some p → p.works = true →
    w' = { w with writings := p.passOn text w.writings }
  nothing : w.behind? h = none ∨ text = "" → w' = w
  failed : ∀ target, w.behind? h = some target → text ≠ "" →
    (∀ p, w.printer? target = some p → p.works = false) → w' = w.reported "forwarding solver message failed"

/-- What has been found is no context: the poll has failed. -/
theorem AfterPoll.of_no_context (hsome : w.behind? h = some target) (hr : w.registry.resolve h = some target)
    (hne : ∀ c, target ≠ .context c) : w.AfterPoll h false (w.reported "abort poll failed") where
  registry_eq := rfl
  stop_iff := by simp [hr, hne]
  context c hc := absurd (Option.some.inj (hsome.symm.trans hc)) (hne c)
  nothing hnone := by simp [hsome] at hnone
  failed _ _ _ := rfl

end World

/-! ## §3 Callbacks -/

namespace Action

open World

theorem on_printerOf_eq (target : Target) (w : World) :
    (printerOf target).on w = (.ok (w.printer? target), w) := by
  cases target <;> rfl

/-- **A poll** is answered. -/
theorem on_shouldAbort_afterPoll (w : World) (h : Handle) :
    ∃ stop w', (shouldAbort h).on w = (.ok stop, w') ∧ w.AfterPoll h stop w' := by
  unfold shouldAbort
  rw [on_bind_of_ok (on_get w)]
  rcases behind?_cases w h with ⟨hnone, hr⟩ | ⟨target, hsome, hr, hnull⟩
  · -- nothing to ask, so the library is told to go on
    have hcontext (c : ContextId) : w.registry.resolve h ≠ some (.context c) := by
      rcases hr with hr | hr <;> simp [hr]
    refine ⟨false, w, ?_, rfl, by simp [hcontext], by simp [hnone], fun _ => rfl, by simp [hnone]⟩
    rcases hr with hr | hr <;> rw [hr] <;> rfl
  rw [hr]
  cases target with
  | context c =>
    refine ⟨_, _, rfl, rfl, by simp [hr, Option.isSome_iff_ne_none], fun c' hc' => ?_, by simp [hsome],
      fun target htarget hne => ?_⟩
    · cases hsome.symm.trans hc'
      rfl
    · cases hsome.symm.trans htarget
      exact absurd rfl (hne c)
  | model m => exact ⟨_, _, by rw [← log_error]; rfl, .of_no_context hsome hr (by simp)⟩
  | holder p => exact ⟨_, _, by rw [← log_error]; rfl, .of_no_context hsome hr (by simp)⟩
  | plain d =>
    refine ⟨_, _, ?_, .of_no_context hsome hr (by simp)⟩
    rw [← log_error]
    cases d with
    | null => exact absurd rfl hnull
    | _ => rfl

/-- **A message** is passed on, or nothing more than recorded. -/
theorem on_forwardMessage_afterMessage (w : World) (h : Handle) (message : Payload) :
    ∃ w', (forwardMessage h message).on w = (.ok (), w') ∧
      w.AfterMessage h (Text.withoutFinalNewlines message.read) w' := by
  have hend := Text.getLast?_withoutFinalNewlines message.read
  unfold forwardMessage
  rw [on_bind_of_ok (on_get w)]
  rcases behind?_cases w h with ⟨hnone, hr⟩ | ⟨target, hsome, hr, hnull⟩
  · refine ⟨w, ?_, rfl, by simp [hnone], fun _ => rfl, by simp [hnone]⟩
    rcases hr with hr | hr <;> rw [hr] <;> rfl
  rw [hr]
  split
  · next heq => cases heq
  · next heq => exact absurd (Option.some.inj heq) hnull
  next found _ heq =>
  cases heq
  dsimp only
  -- from here on nothing matters of the text but that no line feed is left at its end
  generalize Text.withoutFinalNewlines message.read = text at hend ⊢
  by_cases hempty : text = ""
  · subst hempty
    exact ⟨w, rfl, rfl, by simp, fun _ => rfl, by simp⟩
  rw [if_neg (by simpa using hempty), on_bind_of_ok (on_printerOf_eq target w), on_bind_of_ok (on_get w)]
  rcases hp : (w.printer? target).bind fun p => p.print w.writings [.text text] with _ | written
  · -- no printer, or one that fails
    refine ⟨w.reported "forwarding solver message failed", by rw [← log_error]; rfl, rfl, ?_, ?_, ?_⟩
    · intro target' p htarget _ hprinter hworks
      cases hsome.symm.trans htarget
      simp [hprinter, Printer.print_text p hempty hend, hworks] at hp
    · rintro (hnone | htext)
      · simp [hsome] at hnone
      · exact absurd htext hempty
    · exact fun _ _ _ _ => rfl
  · obtain ⟨p, hprinter, hwritten⟩ := Option.bind_eq_some_iff.mp hp
    rw [Printer.print_text p hempty hend] at hwritten
    obtain ⟨hworks, rfl⟩ : p.works = true ∧ p.passOn text w.writings = written := by simpa using hwritten
    refine ⟨{ w with writings := p.passOn text w.writings }, rfl, rfl, ?_, ?_, ?_⟩
    · intro target' p' htarget _ hprinter' _
      cases hsome.symm.trans htarget
      cases hprinter.symm.trans hprinter'
      rfl
    · rintro (hnone | htext)
      · simp [hsome] at hnone
      · exact absurd htext hempty
    · intro target' htarget _ hbroken
      cases hsome.symm.trans htarget
      simp [hbroken p hprinter] at hworks

/-- **Callbacks return** in every state and for every number that is offered as a handle, and leave the registry
alone. A poll answers "stop" exactly when a context is registered there that asking now finds done: when there is
a cause on record for it, or its deadline has passed, or its parent is done. A message is passed on, without the
line feeds at its end and once, when something with a working printer is registered there and there is any text;
bytes count as the text that they are the encoding of. What goes wrong is one record in the log. -/
theorem callbacks_return (w : World) (h : Handle) (message : Payload) :
    (∃ stop w', (shouldAbort h).on w = (.ok stop, w') ∧ w.AfterPoll h stop w' ∧
      (w.contexts.Ordered →
        (stop = true ↔ ∃ c, w.registry.resolve h = some (.context c) ∧ w.contexts.Done w.clock c))) ∧
    (∃ text n w', message.read.toList = text.toList ++ List.replicate n '\n' ∧ text.toList.getLast? ≠ some '\n' ∧
      (forwardMessage h message).on w = (.ok (), w') ∧ w.AfterMessage h text w') ∧
    ∀ s : String, (forwardMessage h (.bytes s.toUTF8.data.toList)).on w = (forwardMessage h (.text s)).on w := by
  obtain ⟨stop, w', hpoll, hafter⟩ := on_shouldAbort_afterPoll w h
  obtain ⟨w'', hforward, hmessage⟩ := on_forwardMessage_afterMessage w h message
  obtain ⟨n, hn⟩ := Text.withoutFinalNewlines_append message.read
  refine ⟨⟨stop, w', hpoll, hafter, fun hordered => ?_⟩,
    ⟨_, n, w'', hn, Text.getLast?_withoutFinalNewlines _, hforward, hmessage⟩, fun s => ?_⟩
  · -- asking again can only confirm what the poll answered
    simp only [hafter.stop_iff, Forest.error_ne_none_iff hordered]
  · -- bytes that spell a text are read back as the text
    have hread : Payload.read (.bytes s.toUTF8.data.toList) = Payload.read (.text s) := Text.ofUtf8_toUTF8 s
    unfold forwardMessage
    rw [hread]

/-- A canceled context is registered, and something that records messages. -/
private def observed : World :=
  { World.initial with
    contexts := ⟨#[⟨none, none, some .canceled, []⟩]⟩
    registry := ⟨#[⟨0, some (.context 0)⟩, ⟨0, some (.holder .recording)⟩], [], 2⟩ }

/-- A poll with the first handle is told to stop, and a line for the second is recorded without its end. -/
theorem callbacks_return_of_canceled :
    ((shouldAbort 1).on observed).1 = .ok true ∧
      ((forwardMessage 2 (.bytes "line\n".toUTF8.data.toList)).on observed).2.writings.messages = #["line"] := by
  -- the only context there is has no parent
  have hordered : observed.contexts.Ordered := fun c p hp => by
    have hlt : c < 1 := Forest.lt_size_of_parent? hp
    interval_cases c
    cases hp
  obtain ⟨⟨stop, w', hpoll, -, hstop⟩, -, -⟩ := callbacks_return observed 1 (.text "line\n")
  obtain ⟨-, ⟨text, n, w'', htext, hend, hforward, hafter⟩, hbytes⟩ := callbacks_return observed 2 (.text "line\n")
  have hdone : observed.contexts.Done observed.clock 0 := Forest.done_iff.mpr (Or.inl (by decide))
  rw [(hstop hordered).mpr ⟨0, rfl, hdone⟩] at hpoll
  -- one newline is stripped and nothing else
  have hline : text = "line" := (Text.withoutFinalNewlines_eq hend htext).symm.trans rfl
  have hnew := hafter.delivered (.holder .recording) .recording rfl (by simp [hline]) rfl rfl
  rw [hpoll, hbytes, hforward, hnew, hline]
  exact ⟨rfl, rfl⟩

end Action

end LinearProgram
