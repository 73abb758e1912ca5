/-
  Spectty.Status.Resume

  The way back from an answered dialog, for Claude Code with hooks active.

  No hook fires when the user approves, so only a scraped `Working` leads from
  `AwaitingInput` back to `Running`.  A slice is scraped as `Working` when the
  window shows no pattern, the text from before the answer included:
  `resumes_iff` says which slices lead back.
-/

import Spectty.Status.Terminal
import Spectty.Output.Patterns

namespace Spectty.Status

open Spectty.Core
open Spectty.Adapters
open Spectty.Output
open Spectty.Lib
open Spectty.Lib.Window

-- ============================================================================
-- One round, seen through the status
-- ============================================================================

/-- The operations, seen through the stored status of a session. -/
abbrev statusStep (id : SessionId) : Prog.Semantics Sys (Option AgentStatus) :=
  Prog.seenThrough (World.status · id) World.step

/-- The status after the hook event of a round, if there is one. -/
def afterHook (event : Option HookEvent) (s : AgentStatus) : AgentStatus :=
  event.elim s fun hookEvent => transition s (eventToObserved hookEvent)

/-- The status after a scraped observation, with hooks active. -/
def afterScrape (observed : Observed) (s : AgentStatus) : AgentStatus :=
  if suppressed (some s) observed then s else transition s observed

section

variable {J : SerdeJson} {runner : AgentRunner} {id : SessionId} {s : AgentStatus}
  {t : Option AgentStatus} {es : List (Event Sys)}

theorem exec_applyAndEmit {source : ObservationSource} {observed : Observed}
    (hx : Prog.Exec (statusStep id) (some s) (applyAndEmit runner id source observed) es t ()) :
    t = some (transition s observed) := by
  cases hx with
  | @op _ moved _ _ _ r _ _ happly hrest =>
      obtain ⟨w, w', hbefore, hafter, rfl, rfl⟩ := happly
      obtain rfl : some (transition s observed) = moved :=
        (SessionRegistry.status_applyObserved hbefore).symm.trans hafter
      cases hanswer : (w.sessions.applyObserved id observed).1 with
      | none =>
          rw [hanswer] at hrest
          cases hrest
          rfl
      | some status =>
          rw [hanswer] at hrest
          cases hrest with
          | op hemit hend =>
              obtain ⟨v, v', hv, hv', hstep⟩ := hemit
              cases hend
              rw [← hv, ← hv']
              exact World.step_status hstep rfl

theorem exec_driveHook {event : Option HookEvent}
    (hx : Prog.Exec (statusStep id) (some s) (driveHook runner id event) es t ()) :
    t = some (afterHook event s) := by
  cases event with
  | none =>
      cases hx
      rfl
  | some hookEvent => exact exec_applyAndEmit hx

theorem exec_emitScrapingGuarded {signal : OutputSignal} {observed : Observed}
    (hobserved : runner.detectStatus signal = some observed)
    (hx : Prog.Exec (statusStep id) (some s) (emitScrapingGuarded runner id signal true) es t ()) :
    t = some (afterScrape observed s) := by
  rw [emitScrapingGuarded, if_neg (by decide), hobserved] at hx
  cases hx with
  | op hlook hrest =>
      obtain ⟨w, w', hbefore, rfl, hstep⟩ := hlook
      obtain ⟨rfl, hlooked⟩ := World.step_getSession hstep
      have hfound := hlooked.trans hbefore
      rw [hbefore] at hrest
      change Prog.Exec _ _ (if suppressed _ observed then _ else _) _ _ _ at hrest
      rw [hfound] at hrest
      unfold afterScrape
      split_ifs at hrest ⊢
      · cases hrest
        rfl
      · exact exec_applyAndEmit hrest

theorem exec_signalRound {st : SignalState} {tick : Tick} {observed : Observed}
    (hobserved : runner.detectStatus (SignalState.signal st tick) = some observed)
    (hx : Prog.Exec (statusStep id) (some s) (signalRound J runner id true st tick) es t ()) :
    t = some (afterScrape observed (afterHook (st.hookReader.poll J tick.stateFile).1 s)) := by
  obtain ⟨_, _, _, _, -, hhook, hscrape⟩ := Prog.exec_bind hx
  obtain rfl := exec_driveHook hhook
  exact exec_emitScrapingGuarded hobserved hscrape

end

-- ============================================================================
-- A slice
-- ============================================================================

section

variable {ι : Type} [DecidableEq ι] {J : SerdeJson} {id : SessionId} {exitCodeOnEof : Int}
  {hookReader : StateFileReader} {startedAt : Timestamp} {before : List Tick} {tick : Tick}
  {slice : List UInt8} {s : AgentStatus} {st : SignalState}

theorem windowBytes_after (before : List Tick) (st : SignalState) :
    (SignalState.after J st before).producer.windowBytes = st.producer.windowBytes := by
  induction before generalizing st with
  | nil => rfl
  | cons tick before ih =>
      rw [SignalState.after, List.foldl_cons, ← SignalState.after, ih]
      unfold SignalState.next
      cases tick.outcome with
      | slice bytes => simp only [ingest_eq]
      | timeout | disconnected => rfl

/-- What Claude Code's detector makes of an active signal. -/
theorem detectStatus_active {signal : OutputSignal} (hactive : signal.isActive = true)
    (hexit : signal.exitCode = none) :
    claudeCodeRunner.detectStatus signal =
      some (if ClaudeCodeRunner.showsDialog signal.textWindow then .needsInput
        else if claudePatterns.ready.any (containsPattern (compact signal.textWindow)) then .ready
        else .working) := by
  simp only [claudeCodeRunner, ClaudeCodeRunner.detectStatus, hactive, hexit, if_true]
  split_ifs <;> rfl

/-- A slice is observed; the session is working if the window shows no pattern. -/
theorem exists_observed (hslice : tick.outcome = .slice slice)
    (hexit : st.producer.exitCode = none) :
    ∃ observed, claudeCodeRunner.detectStatus (SignalState.signal st tick) = some observed ∧
      (observed = .needsInput ∨ observed = .ready ∨ observed = .working) ∧
      (observed = .working ↔ showsPattern (st.producer.ingest slice).window = false) := by
  have hsignal : SignalState.signal st tick =
      (st.producer.ingest slice).snapshot tick.now 0 true := by
    rw [SignalState.signal, hslice]
  have hopen : (SignalState.signal st tick).exitCode = none := by
    rw [hsignal]
    exact (OutputSignalProducer.exitCode_ingest slice).trans hexit
  refine ⟨_, detectStatus_active (by rw [hsignal]; rfl) hopen, ?_⟩
  rw [hsignal, showsPattern, patterns, List.any_append, Bool.or_eq_false_iff]
  show _ ∧ (_ ↔ ClaudeCodeRunner.showsDialog _ = false ∧ _)
  unfold compacted OutputSignalProducer.snapshot
  split_ifs <;> simp_all

theorem afterScrape_running_iff {observed : Observed}
    (h : observed = .needsInput ∨ observed = .ready ∨ observed = .working) :
    afterScrape observed s = .running ↔
      s = .running ∨ s = .awaitingInput ∧ observed = .working := by
  rcases h with rfl | rfl | rfl <;> cases s <;> decide

/-- A slice that brings no pattern takes a session back to `Running` if nothing
    that is left in the window of the text before shows one.  The session is
    still awaiting input then, whatever the round's hook event, or is running
    already. -/
theorem resumes_iff {i : ι} {P₀ P : Pool ι World Sys Unit} {tr : List (Moment ι World Sys)}
    (hst : st = SignalState.after J (.start startedAt hookReader) before)
    (hslice : tick.outcome = .slice slice)
    (hloop : P₀.threads i = signalLoop J claudeCodeRunner id true exitCodeOnEof st [tick])
    (hothers : ∀ j, j ≠ i → Prog.AllOps (World.touchesStatus id · = false) (P₀.threads j))
    (hstatus : P₀.shared.status id = some s)
    (hbrings : ¬ Contributes st.producer.window (kept st.producer.ansiState slice))
    (hr : Pool.Run World.step P₀ tr P) (hdone : P.threads i = .ret ()) :
    P.shared.status id = some .running ↔
      afterHook (st.hookReader.poll J tick.stateFile).1 s = .running ∨
      afterHook (st.hookReader.poll J tick.stateFile).1 s = .awaitingInput ∧
        showsPattern (retained signalWindowBytes isContinuation st.producer.window
          (kept st.producer.ansiState slice)) = false := by
  have hexit : st.producer.exitCode = none := by
    rw [hst, exitCode_after]
    rfl
  have hwindow : (st.producer.ingest slice).window =
      keep signalWindowBytes isContinuation
        (st.producer.window ++ kept st.producer.ansiState slice) := by
    have hbytes : st.producer.windowBytes = signalWindowBytes := by
      rw [hst, windowBytes_after]
      rfl
    rw [ingest_eq, hbytes]
  obtain ⟨observed, hobserved, hlive, hworking⟩ := exists_observed hslice hexit
  have hview : ∀ (w : World) (e : Event Sys) (w' : World), World.touchesStatus id e.op = false →
      World.step w e w' → w'.status id = w.status id :=
    fun _ _ _ hop hstep => World.step_status hstep hop
  have hreach := hr.alone hview hothers
  rw [hdone, hloop, signalLoop_cons (by rw [hslice]; simp), hstatus] at hreach
  generalize P.shared.status id = final at hreach ⊢
  obtain ⟨es, hx⟩ := hreach.exec
  obtain ⟨_, _, _, _, -, hround, hend⟩ := Prog.exec_bind hx
  obtain rfl := exec_signalRound hobserved hround
  cases hend
  rw [Option.some.injEq, afterScrape_running_iff hlive, hworking, hwindow]
  refine or_congr_right (and_congr_right fun _ => ?_)
  rw [Bool.eq_false_iff, Bool.eq_false_iff]
  exact not_congr ⟨showsPattern_retained hbrings, showsPattern_keep⟩

/-- A slice of plain text, `ok`. -/
def answerTick : Tick where
  outcome := .slice [0x6F, 0x6B]
  stateFile := none
  now := 2

theorem kept_answer : kept .ground [0x6F, 0x6B] = [0x6F, 0x6B] := by
  decide

/-- A session that awaits an answer, with nothing in the window. -/
def answerPool : Pool Unit World Sys Unit where
  shared := .ofSession ⟨"1", "", ⟨"claude-code", none, .cooperative⟩, .awaitingInput, "", 0⟩
  threads := fun _ =>
    signalLoop .compact claudeCodeRunner "1" true 0 (.start 0 (.new "/run" "1")) [answerTick]

/-- The text resumes the session. -/
theorem resumes_iff_answer :
    ∃ tr P, Pool.Run World.step answerPool tr P ∧ P.shared.status "1" = some .running := by
  obtain ⟨es, hx⟩ := Prog.exec_interp (World.handler_step World.noFaults)
    (answerPool.threads ()) answerPool.shared
  obtain ⟨tr, hr⟩ := Pool.Run.of_exec hx
  have hst : SignalState.start 0 (.new "/run" "1") =
      SignalState.after .compact (.start 0 (.new "/run" "1")) [] := rfl
  have hslice : answerTick.outcome = .slice [0x6F, 0x6B] := rfl
  have hloop : answerPool.threads () = signalLoop .compact claudeCodeRunner "1" true 0
      (.start 0 (.new "/run" "1")) [answerTick] := rfl
  have hstatus : answerPool.shared.status "1" = some .awaitingInput := rfl
  have hbrings : ¬ Contributes [] (kept .ground [0x6F, 0x6B]) := by
    rw [kept_answer, contributes_iff, compacted_ascii (by simp), compacted_ascii (by simp)]
    decide
  have hleft : showsPattern (retained signalWindowBytes isContinuation []
      (kept .ground [0x6F, 0x6B])) = false := by
    have hnil : retained signalWindowBytes isContinuation [] [0x6F, 0x6B] = [] := by decide
    rw [kept_answer, hnil, showsPattern, compacted_ascii (by simp)]
    decide
  have hresumed := resumes_iff hst hslice hloop (fun j hj => absurd (Subsingleton.elim j ()) hj)
    hstatus hbrings hr rfl
  exact ⟨tr, _, hr, hresumed.mpr (Or.inr ⟨rfl, hleft⟩)⟩

-- ============================================================================
-- The answered dialog, still in the window
-- ============================================================================

/-- The bytes of `(y/n)`, and the hook event of the dialog. -/
def permissionTick : Tick where
  outcome := .slice [0x28, 0x79, 0x2F, 0x6E, 0x29]
  stateFile := some (SerdeJson.compact.toString
    (.obj [("event", .str "Permission"), ("ts", .int 1), ("session_id", .str "1")]))
  now := 1

/-- The same file is there still when the next slice comes. -/
def afterAnswerTick : Tick := { answerTick with stateFile := permissionTick.stateFile }

/-- A slice that leaves a pattern in the window keeps a session awaiting input. -/
theorem dialogLoop_slice {ticks : List Tick} {st : SignalState}
    (hst : st = SignalState.after .compact (.start 0 (.new "/run" "1")) ticks)
    (hticks : ∀ tick ∈ ticks, tick.outcome ≠ .disconnected) (hslice : tick.outcome = .slice slice)
    (hbefore : dialogLoop 0 ticks = some s)
    (hhook : afterHook (st.hookReader.poll .compact tick.stateFile).1 s = .awaitingInput)
    (hshows : showsPattern (st.producer.ingest slice).window = true) :
    dialogLoop 0 (ticks ++ [tick]) = some .awaitingInput := by
  have hexit : st.producer.exitCode = none := by
    rw [hst, exitCode_after]
    rfl
  have hopen : tick.outcome ≠ .disconnected := by
    rw [hslice]
    simp
  obtain ⟨observed, hobserved, hlive, hworking⟩ := exists_observed hslice hexit
  unfold dialogLoop afterLoop runSignalLoop at hbefore ⊢
  rw [signalLoop_append hticks, ← hst, signalLoop_cons hopen, Prog.interp_bind, Prog.interp_bind]
  generalize (Prog.interp _ (signalLoop _ _ _ _ _ _ ticks) _).2 = w at hbefore ⊢
  obtain ⟨es, hx⟩ := Prog.exec_interp (World.handler_step World.noFaults)
    (signalRound .compact claudeCodeRunner "1" true st tick) w
  have hround := hx.seenThrough (World.status · "1")
  rw [hbefore] at hround
  have hmoved := exec_signalRound hobserved hround
  rw [hhook] at hmoved
  refine hmoved.trans (congrArg some ?_)
  rw [hshows] at hworking
  rcases hlive with rfl | rfl | rfl
  · rfl
  · rfl
  · exact absurd (hworking.mp rfl) (by simp)

/-- The producer after the dialog. -/
def dialogProducer : OutputSignalProducer where
  window := [0x28, 0x79, 0x2F, 0x6E, 0x29]
  ansiState := .ground
  windowBytes := signalWindowBytes
  exitCode := none

theorem ingest_permissionTick :
    (OutputSignalProducer.new signalWindowBytes).ingest [0x28, 0x79, 0x2F, 0x6E, 0x29] =
      dialogProducer := by
  have hkept : kept AnsiState.ground [0x28, 0x79, 0x2F, 0x6E, 0x29] =
      [0x28, 0x79, 0x2F, 0x6E, 0x29] := by decide
  rw [ingest_eq]
  simp only [OutputSignalProducer.new, List.nil_append, hkept]
  rw [keep_of_length_le (by decide)]
  rfl

theorem window_answer :
    (dialogProducer.ingest [0x6F, 0x6B]).window = dialogProducer.window ++ [0x6F, 0x6B] := by
  rw [ingest_eq]
  simp only [dialogProducer, kept_answer]
  exact keep_of_length_le (t := [0x28, 0x79, 0x2F, 0x6E, 0x29, 0x6F, 0x6B]) (by decide)

theorem poll_permissionTick :
    (StateFileReader.new "/run" "1").poll .compact permissionTick.stateFile =
      (some .permission, ⟨"/run/spectty-1.state", "1", some 1⟩) := by
  simp only [StateFileReader.poll, permissionTick, Option.bind_some, parseStateFile,
    SerdeJson.fromStr_toString]
  rfl

/-- The loop's state at the answer. -/
def answeredState : SignalState :=
  SignalState.after .compact (.start 0 (.new "/run" "1")) [permissionTick]

theorem answeredState_eq :
    answeredState =
      { producer := dialogProducer
        lastByteAt := 1
        hookReader := ⟨"/run/spectty-1.state", "1", some 1⟩ } := by
  have hnext : answeredState =
      { producer :=
          (OutputSignalProducer.new signalWindowBytes).ingest [0x28, 0x79, 0x2F, 0x6E, 0x29]
        lastByteAt := 1
        hookReader :=
          ((StateFileReader.new "/run" "1").poll .compact permissionTick.stateFile).2 } := rfl
  rw [hnext, ingest_permissionTick, poll_permissionTick]

theorem poll_answeredState :
    (answeredState.hookReader.poll .compact afterAnswerTick.stateFile).1 = none := by
  rw [answeredState_eq]
  simp only [StateFileReader.poll, afterAnswerTick, permissionTick, Option.bind_some,
    parseStateFile, SerdeJson.fromStr_toString]
  rfl

theorem showsPattern_dialog : showsPattern dialogProducer.window = true := by
  rw [dialogProducer, showsPattern, compacted_ascii (by simp)]
  decide

/-- Text that brings no pattern leaves the session awaiting input. -/
theorem resume_missed :
    dialogLoop 0 [permissionTick] = some .awaitingInput ∧
      kept answeredState.producer.ansiState [0x6F, 0x6B] = [0x6F, 0x6B] ∧
      ¬ Contributes answeredState.producer.window [0x6F, 0x6B] ∧
      dialogLoop 0 ([permissionTick] ++ [afterAnswerTick]) = some .awaitingInput := by
  have hdialog : dialogLoop 0 ([] ++ [permissionTick]) = some .awaitingInput := by
    refine dialogLoop_slice (rfl : SignalState.start 0 (.new "/run" "1") = _) (by simp) rfl
      (rfl : dialogLoop 0 [] = some .running) ?_ ?_
    · simp only [SignalState.start]
      rw [poll_permissionTick]
      rfl
    · simp only [SignalState.start]
      rw [ingest_permissionTick]
      exact showsPattern_dialog
  refine ⟨hdialog, ?_, ?_, ?_⟩
  · rw [answeredState_eq]
    exact kept_answer
  · rw [answeredState_eq, contributes_iff, dialogProducer, compacted_ascii (by simp),
      compacted_ascii (by simp)]
    decide
  · refine dialogLoop_slice (rfl : answeredState = _) (by decide) rfl hdialog ?_ ?_
    · rw [poll_answeredState]
      rfl
    · rw [answeredState_eq, window_answer]
      exact showsPattern_append showsPattern_dialog

end

end Spectty.Status
