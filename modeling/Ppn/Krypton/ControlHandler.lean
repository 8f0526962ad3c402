import Ppn.Krypton.KryptonService
import Mathlib.Data.List.Infix

/-!
# `ServiceMain` and `ServiceControlHandler`, interleaved

Once `ServiceMain` has sent `SERVICE_RUNNING` — the first status that accepts
stop, so the first after which the SCM delivers `SERVICE_CONTROL_STOP` — two
threads work on `service_status_`. The dispatcher thread runs
`ServiceControlHandler`: it sets the stop event, reads
`service_status_.dwCurrentState` as its argument and calls
`ReportServiceStatus` with it. `ServiceMain` wakes on the event and makes its
last call, `ReportServiceStatus(SERVICE_STOPPED, NO_ERROR, 0)`. No lock is
taken: the two calls write the fields of the one structure statement by
statement, and `SetServiceStatus` sends whatever the structure holds when it
runs. The model interleaves the two threads at those statements; one
`ReportServiceStatus` run without interruption is `reportServiceStatus`
(`foldl_exec_reportLines`).

Up to the wait nothing interleaves, and `ServiceMain`'s reports send exactly
start pending and then stopped with the failed call's code, or running, after
which the two threads start from the status they left (`serviceMain_protocol`).
From there, three things hold over every interleaving, and a fourth over every
state.

The SCM never receives a torn status (`run_sent_settled`). Both calls pass
`NO_ERROR` and a wait hint of 0 and the state the handler copies is running or
stopped, so whichever statements interleave, every status sent says running
or stopped, with no error, no wait hint, stop accepted and checkpoint 0.

It may say running for good. The handler can read `SERVICE_RUNNING` before
`ServiceMain` writes `SERVICE_STOPPED` and write it back before `ServiceMain`
sends; `ServiceMain` then returns with `service_status_` at running without
the SCM ever having been sent stopped. From such a state every status sent
afterwards says running, whatever controls follow
(`run_running_after_return`): each stop re-reads running and re-sends it.

That is the only way it goes wrong. In every run in which the handler does not
handle a stop while `ServiceMain` is inside its last report — as if one lock
covered both — once `ServiceMain` has returned, the structure and the last
status sent say stopped (`runSerial_stopped`).

Nothing deadlocks: from any state of the two threads, some continuation makes
`ServiceMain` return (`run_main_returns`).
-/

namespace Krypton.Windows

/-- `SERVICE_CONTROL_STOP`. -/
def serviceControlStop : UInt32 := 1

/-- A statement of `ReportServiceStatus`: the write of one field of
`service_status_`, or the `SetServiceStatus` call. -/
inductive ReportLine where
  | setCurrentState
  | setWin32ExitCode
  | setWaitHint
  | setControlsAccepted
  | setCheckPoint
  | send
  deriving DecidableEq, Repr

/-- The body of `ReportServiceStatus`, in order. -/
def reportLines : List ReportLine :=
  [.setCurrentState, .setWin32ExitCode, .setWaitHint, .setControlsAccepted, .setCheckPoint, .send]

/-- What the two threads share: `service_status_`, whether
`service_stop_event_` is set, and the statuses sent to the SCM so far. -/
structure Shared where
  status : ServiceStatus
  stopEvent : Bool
  sent : List ServiceStatus
  deriving DecidableEq, Repr

/-- One statement of `ReportServiceStatus(r.currentState, r.exitCode, r.waitHint)`. -/
def ReportLine.exec (r : Report) (sh : Shared) : ReportLine → Shared
  | .setCurrentState => { sh with status := { sh.status with currentState := r.currentState } }
  | .setWin32ExitCode => { sh with status := { sh.status with win32ExitCode := r.exitCode } }
  | .setWaitHint => { sh with status := { sh.status with waitHint := r.waitHint } }
  | .setControlsAccepted =>
    { sh with status := { sh.status with
        controlsAccepted := if r.currentState = serviceStartPending then 0 else serviceAcceptStop } }
  | .setCheckPoint =>
    { sh with status := { sh.status with
        checkPoint := if r.currentState = serviceRunning ∨ r.currentState = serviceStopped then 0
          else sh.status.checkPoint + 1 } }
  | .send => { sh with sent := sh.sent ++ [sh.status] }

/-- `ServiceMain`'s last call, `ReportServiceStatus(SERVICE_STOPPED, NO_ERROR, 0)`. -/
def mainStopReport : Report := ⟨serviceStopped, noError, 0⟩

/-- The handler's `ReportServiceStatus(dwCurrentState, NO_ERROR, 0)` for the
state it read. -/
def handlerReport (state : UInt32) : Report := ⟨state, noError, 0⟩

/-- Where `ServiceMain` is after sending `SERVICE_RUNNING`: blocked in
`WaitForSingleObject`, inside its last report with `rest` still to run, or
returned. -/
inductive MainPc where
  | waiting
  | reporting (rest : List ReportLine)
  | returned
  deriving DecidableEq, Repr

/-- Where the dispatcher thread is: between control requests, in the stop
branch after `SetEvent` with `dwCurrentState` still to read, or inside the
handler's report of the state it read. -/
inductive HandlerPc where
  | idle
  | stopping
  | reporting (state : UInt32) (rest : List ReportLine)
  deriving DecidableEq, Repr

structure System where
  shared : Shared
  main : MainPc
  handler : HandlerPc
  deriving DecidableEq, Repr

/-- What can happen next: the dispatcher calls `ServiceControlHandler(code)`,
or one of the two threads runs its next statement. -/
inductive Event where
  | control (code : UInt32)
  | handler
  | main
  deriving DecidableEq, Repr

/-- One step; `none` is a step the thread cannot take in this state. A control
other than stop (`SERVICE_CONTROL_INTERROGATE` and the rest) breaks out of the
switch and changes nothing. -/
def System.step (sys : System) : Event → Option System
  | .control code =>
    match sys.handler with
    | .idle =>
      if code = serviceControlStop then
        some { sys with shared := { sys.shared with stopEvent := true }, handler := .stopping }
      else some sys
    | _ => none
  | .handler =>
    match sys.handler with
    | .idle => none
    | .stopping => some { sys with handler := .reporting sys.shared.status.currentState reportLines }
    | .reporting _ [] => some { sys with handler := .idle }
    | .reporting state (line :: rest) =>
      some { sys with
        shared := line.exec (handlerReport state) sys.shared, handler := .reporting state rest }
  | .main =>
    match sys.main with
    | .waiting => if sys.shared.stopEvent then some { sys with main := .reporting reportLines } else none
    | .reporting [] => some { sys with main := .returned }
    | .reporting (line :: rest) =>
      some { sys with shared := line.exec mainStopReport sys.shared, main := .reporting rest }
    | .returned => none

/-- A run: the steps of both threads in the order they interleave. -/
def System.run (sys : System) : List Event → Option System
  | [] => some sys
  | event :: events => (sys.step event).bind (·.run events)

/-- The two threads once `ServiceMain` has sent `SERVICE_RUNNING` from
`service_status_ = status`: it waits on the stop event, the dispatcher is
idle, and nothing has been sent since. -/
def System.start (status : ServiceStatus) : System :=
  ⟨⟨reportServiceStatus status serviceRunning noError 1000, false, []⟩, .waiting, .idle⟩

/-- A property every step keeps holds after every run. -/
theorem System.run_preserves {P : System → Prop}
    (hstep : ∀ {sys sys' : System} {event : Event}, P sys → sys.step event = some sys' → P sys')
    {sys sys' : System} {events : List Event} (h : P sys) (hrun : sys.run events = some sys') :
    P sys' := by
  induction events generalizing sys with
  | nil => exact Option.some.inj hrun ▸ h
  | cons event events ih =>
    obtain ⟨mid, hmid, hrest⟩ := Option.bind_eq_some.mp hrun
    exact ih (hstep h hmid) hrest

theorem System.run_cons (sys : System) (event : Event) (events : List Event) :
    sys.run (event :: events) = (sys.step event).bind (·.run events) := rfl

theorem System.run_append (sys : System) (events more : List Event) :
    sys.run (events ++ more) = (sys.run events).bind (·.run more) := by
  induction events generalizing sys with
  | nil => rfl
  | cons event events ih =>
    rw [List.cons_append, System.run_cons, System.run_cons, Option.bind_assoc]
    simp only [ih]

/-- What a step can do: nothing (a control other than stop), take a stop
control, read the state for the handler's report, end the handler, run one of
its statements, wake `ServiceMain`, return from it, or run one of its
statements. -/
theorem System.step_cases {sys sys' : System} {event : Event} (h : sys.step event = some sys') :
    sys' = sys ∨
    (sys.handler = .idle ∧
      sys' = { sys with shared := { sys.shared with stopEvent := true }, handler := .stopping }) ∨
    (sys.handler = .stopping ∧
      sys' = { sys with handler := .reporting sys.shared.status.currentState reportLines }) ∨
    (∃ state, sys.handler = .reporting state [] ∧ sys' = { sys with handler := .idle }) ∨
    (∃ state line rest, sys.handler = .reporting state (line :: rest) ∧
      sys' = { sys with
        shared := line.exec (handlerReport state) sys.shared, handler := .reporting state rest }) ∨
    (sys.main = .waiting ∧ sys.shared.stopEvent = true ∧
      sys' = { sys with main := .reporting reportLines }) ∨
    (sys.main = .reporting [] ∧ sys' = { sys with main := .returned }) ∨
    (∃ line rest, sys.main = .reporting (line :: rest) ∧
      sys' = { sys with shared := line.exec mainStopReport sys.shared, main := .reporting rest }) := by
  cases event with
  | control code =>
    simp only [System.step] at h
    split at h
    · next hidle =>
      split at h <;> cases h
      · exact .inr (.inl ⟨hidle, rfl⟩)
      · exact .inl rfl
    · cases h
  | handler =>
    simp only [System.step] at h
    split at h
    · cases h
    · next hpc => cases h; exact .inr (.inr (.inl ⟨hpc, rfl⟩))
    · next state hpc => cases h; exact .inr (.inr (.inr (.inl ⟨state, hpc, rfl⟩)))
    · next state line rest hpc =>
      cases h; exact .inr (.inr (.inr (.inr (.inl ⟨state, line, rest, hpc, rfl⟩))))
  | main =>
    simp only [System.step] at h
    split at h
    · next hpc =>
      split at h
      · next hev => cases h; exact .inr (.inr (.inr (.inr (.inr (.inl ⟨hpc, hev, rfl⟩)))))
      · cases h
    · next hpc => cases h; exact .inr (.inr (.inr (.inr (.inr (.inr (.inl ⟨hpc, rfl⟩))))))
    · next line rest hpc =>
      cases h; exact .inr (.inr (.inr (.inr (.inr (.inr (.inr ⟨line, rest, hpc, rfl⟩))))))
    · cases h

/-! ## Up to the wait

Before `ServiceMain` waits, the SCM has been sent no status that accepts
stop, so no stop control comes and its reports run one after another; the
statement-level model then sends what the sequential one computes
(`execReports_eq`). On the success path the two-thread run begins where they
leave off. -/

section Exec

variable (r : Report) (sh : Shared) (line : ReportLine)

theorem ReportLine.exec_sent_of_ne (h : line ≠ .send) : (line.exec r sh).sent = sh.sent := by
  cases line <;> first | rfl | exact absurd rfl h

theorem ReportLine.exec_send : (ReportLine.send.exec r sh) = { sh with sent := sh.sent ++ [sh.status] } :=
  rfl

theorem ReportLine.exec_currentState :
    (line.exec r sh).status.currentState =
      if line = .setCurrentState then r.currentState else sh.status.currentState := by
  cases line <;> rfl

theorem ReportLine.exec_waitHint :
    (line.exec r sh).status.waitHint = if line = .setWaitHint then r.waitHint else sh.status.waitHint := by
  cases line <;> rfl

end Exec

/-! ## No torn status

Every field but the state is written with the same value by both calls, and
the state is one of two; only the wait hint starts elsewhere, at the 1000 of
`SERVICE_RUNNING`, and each call overwrites it before its `SetServiceStatus`. -/

/-- The fields both reports write alike: a running or stopped state, no error,
stop accepted, checkpoint 0. -/
def Settled (s : ServiceStatus) : Prop :=
  (s.currentState = serviceRunning ∨ s.currentState = serviceStopped) ∧
    s.win32ExitCode = noError ∧ s.controlsAccepted = serviceAcceptStop ∧ s.checkPoint = 0

/-- A report of a running or stopped state, with no error and no wait hint. -/
def Report.Quiet (r : Report) : Prop :=
  (r.currentState = serviceRunning ∨ r.currentState = serviceStopped) ∧ r.exitCode = noError ∧
    r.waitHint = 0

theorem mainStopReport_quiet : mainStopReport.Quiet := ⟨.inr rfl, rfl, rfl⟩

theorem handlerReport_quiet {state : UInt32}
    (h : state = serviceRunning ∨ state = serviceStopped) : (handlerReport state).Quiet :=
  ⟨h, rfl, rfl⟩

theorem settled_exec {r : Report} (hr : r.Quiet) {sh : Shared} (h : Settled sh.status)
    (line : ReportLine) : Settled (line.exec r sh).status := by
  obtain ⟨hstate, hcode, -⟩ := hr
  obtain ⟨h₁, h₂, h₃, h₄⟩ := h
  have hpending : r.currentState ≠ serviceStartPending := by
    rcases hstate with h | h <;> rw [h] <;> decide
  cases line with
  | setCurrentState => exact ⟨hstate, h₂, h₃, h₄⟩
  | setWin32ExitCode => exact ⟨h₁, hcode, h₃, h₄⟩
  | setWaitHint => exact ⟨h₁, h₂, h₃, h₄⟩
  | setControlsAccepted => exact ⟨h₁, h₂, if_neg hpending, h₄⟩
  | setCheckPoint => exact ⟨h₁, h₂, h₃, if_pos hstate⟩
  | send => exact ⟨h₁, h₂, h₃, h₄⟩

/-- A thread inside a report with `rest` still to run: `rest` is what is left
of the body, and once its wait hint is written, the wait hint is 0. -/
def ReportInv (rest : List ReportLine) (status : ServiceStatus) : Prop :=
  rest <:+ reportLines ∧ (ReportLine.setWaitHint ∉ rest → status.waitHint = 0)

theorem reportInv_reportLines (status : ServiceStatus) : ReportInv reportLines status :=
  ⟨List.suffix_refl _, fun h => absurd (by decide) h⟩

/-- The wait hint is written before the send. -/
theorem ReportInv.waitHint_of_send {rest : List ReportLine} {status : ServiceStatus}
    (h : ReportInv (.send :: rest) status) : status.waitHint = 0 := by
  have hsend : ∀ tail ∈ reportLines.tails, tail.head? = some .send → ReportLine.setWaitHint ∉ tail := by
    decide
  exact h.2 (hsend _ ((List.mem_tails _ _).mpr h.1) rfl)

/-- Another thread's statement keeps a report's wait hint at 0. -/
theorem ReportInv.frame {rest : List ReportLine} {r : Report} (hr : r.waitHint = 0) {sh : Shared}
    (h : ReportInv rest sh.status) (line : ReportLine) : ReportInv rest (line.exec r sh).status := by
  refine ⟨h.1, fun hn => ?_⟩
  rw [ReportLine.exec_waitHint]
  split
  · exact hr
  · exact h.2 hn

/-- The thread's own statement moves it on. -/
theorem ReportInv.exec {line : ReportLine} {rest : List ReportLine} {r : Report} (hr : r.waitHint = 0)
    {sh : Shared} (h : ReportInv (line :: rest) sh.status) : ReportInv rest (line.exec r sh).status := by
  refine ⟨(List.suffix_cons line rest).trans h.1, fun hn => ?_⟩
  rw [ReportLine.exec_waitHint]
  split
  · exact hr
  · next hne => exact h.2 (List.not_mem_cons_of_ne_of_not_mem (Ne.symm hne) hn)

/-- What holds of the shared record throughout. -/
def SharedInv (sh : Shared) : Prop :=
  Settled sh.status ∧ ∀ s ∈ sh.sent, Settled s ∧ s.waitHint = 0

/-- A statement of a quiet report, run by a thread inside it, keeps the shared
facts: the status it may send has every field settled. -/
theorem SharedInv.exec {r : Report} (hr : r.Quiet) {sh : Shared} (h : SharedInv sh)
    {line : ReportLine} {rest : List ReportLine} (hme : ReportInv (line :: rest) sh.status) :
    SharedInv (line.exec r sh) := by
  refine ⟨settled_exec hr h.1 line, ?_⟩
  by_cases hline : line = .send
  · subst hline
    intro s hs
    rcases List.mem_append.mp hs with hs | hs
    · exact h.2 s hs
    · rw [List.mem_singleton.mp hs]
      exact ⟨h.1, hme.waitHint_of_send⟩
  · rw [ReportLine.exec_sent_of_ne _ _ _ hline]
    exact h.2

structure System.Inv (sys : System) : Prop where
  shared : SharedInv sys.shared
  main : ∀ {rest}, sys.main = .reporting rest → ReportInv rest sys.shared.status
  handler : ∀ {state rest}, sys.handler = .reporting state rest →
    (state = serviceRunning ∨ state = serviceStopped) ∧ ReportInv rest sys.shared.status

theorem System.Inv.start (status : ServiceStatus) : (System.start status).Inv where
  shared := ⟨⟨.inl rfl, rfl, rfl, rfl⟩, fun _ h => nomatch h⟩
  main h := nomatch h
  handler h := nomatch h

theorem System.Inv.step {sys sys' : System} {event : Event} (h : sys.Inv)
    (hstep : sys.step event = some sys') : sys'.Inv := by
  obtain ⟨hsh, hmain, hhandler⟩ := h
  rcases System.step_cases hstep with rfl | ⟨-, rfl⟩ | ⟨-, rfl⟩ | ⟨_, -, rfl⟩ |
    ⟨state, line, rest, hpc, rfl⟩ | ⟨-, -, rfl⟩ | ⟨-, rfl⟩ | ⟨line, rest, hpc, rfl⟩
  · exact ⟨hsh, hmain, hhandler⟩
  · exact ⟨hsh, hmain, nofun⟩
  · exact ⟨hsh, hmain, by rintro _ _ ⟨⟩; exact ⟨hsh.1.1, reportInv_reportLines _⟩⟩
  · exact ⟨hsh, hmain, nofun⟩
  · obtain ⟨hstate, hme⟩ := hhandler hpc
    exact ⟨hsh.exec (handlerReport_quiet hstate) hme, fun hm => (hmain hm).frame rfl line,
      by rintro _ _ ⟨⟩; exact ⟨hstate, hme.exec rfl⟩⟩
  · exact ⟨hsh, by rintro _ ⟨⟩; exact reportInv_reportLines _, hhandler⟩
  · exact ⟨hsh, nofun, hhandler⟩
  · have hme := hmain hpc
    refine ⟨hsh.exec mainStopReport_quiet hme, by rintro _ ⟨⟩; exact hme.exec rfl, fun hh => ?_⟩
    obtain ⟨hstate, hinv⟩ := hhandler hh
    exact ⟨hstate, hinv.frame rfl line⟩

/-- However the two threads interleave, every status the SCM is sent says
running or stopped, with no error, no wait hint, stop accepted and
checkpoint 0. -/
theorem run_sent_settled {status : ServiceStatus} {events : List Event} {sys : System}
    (hrun : (System.start status).run events = some sys) :
    ∀ s ∈ sys.shared.sent, Settled s ∧ s.waitHint = 0 :=
  (System.run_preserves System.Inv.step (System.Inv.start status) hrun).shared.2

theorem run_sent_settled_two_stops :
    ∃ sys, (System.start ⟨serviceStartPending, noError, 1000, 0, 1⟩).run
        [.control serviceControlStop, .handler, .main, .main, .handler, .main, .main, .main, .main,
          .main, .main, .handler, .handler, .handler, .handler, .handler, .handler,
          .control serviceControlStop, .handler, .handler, .handler] = some sys ∧
      ∀ s ∈ sys.shared.sent, Settled s ∧ s.waitHint = 0 :=
  ⟨_, rfl, @run_sent_settled _
    [.control serviceControlStop, .handler, .main, .main, .handler, .main, .main, .main, .main,
      .main, .main, .handler, .handler, .handler, .handler, .handler, .handler,
      .control serviceControlStop, .handler, .handler, .handler] _ rfl⟩

/-! ## Running for good

Once `ServiceMain` has returned with `service_status_` at running, nothing
writes another state: the handler copies the state it reads. -/

/-- `ServiceMain` has returned, `service_status_` says running, the dispatcher
is not inside a report of another state, and every status sent after `sent₀`
said running. -/
def StuckRunning (sent₀ : List ServiceStatus) (sys : System) : Prop :=
  sys.main = .returned ∧ sys.shared.status.currentState = serviceRunning ∧
    (∀ {state rest}, sys.handler = .reporting state rest → state = serviceRunning) ∧
    ∃ later, sys.shared.sent = sent₀ ++ later ∧ ∀ s ∈ later, s.currentState = serviceRunning

theorem StuckRunning.step {sent₀ : List ServiceStatus} {sys sys' : System} {event : Event}
    (h : StuckRunning sent₀ sys) (hstep : sys.step event = some sys') : StuckRunning sent₀ sys' := by
  obtain ⟨hmain, hstate, hhandler, later, hsent, hlater⟩ := h
  rcases System.step_cases hstep with rfl | ⟨-, rfl⟩ | ⟨-, rfl⟩ | ⟨_, -, rfl⟩ |
    ⟨state, line, rest, hpc, rfl⟩ | ⟨hpc, -⟩ | ⟨hpc, -⟩ | ⟨_, _, hpc, -⟩
  · exact ⟨hmain, hstate, hhandler, later, hsent, hlater⟩
  · exact ⟨hmain, hstate, nofun, later, hsent, hlater⟩
  · exact ⟨hmain, hstate, by rintro _ _ ⟨⟩; exact hstate, later, hsent, hlater⟩
  · exact ⟨hmain, hstate, nofun, later, hsent, hlater⟩
  · obtain rfl : state = serviceRunning := hhandler hpc
    have hstate' : (line.exec (handlerReport serviceRunning) sys.shared).status.currentState =
        serviceRunning := by
      rw [ReportLine.exec_currentState]
      split
      · rfl
      · exact hstate
    refine ⟨hmain, hstate', by rintro _ _ ⟨⟩; rfl, ?_⟩
    by_cases hline : line = .send
    · subst hline
      refine ⟨later ++ [sys.shared.status], by rw [ReportLine.exec_send, hsent, List.append_assoc], ?_⟩
      intro s hs
      rcases List.mem_append.mp hs with hs | hs
      · exact hlater s hs
      · rw [List.mem_singleton.mp hs]
        exact hstate
    · exact ⟨later, by rw [ReportLine.exec_sent_of_ne _ _ _ hline, hsent], hlater⟩
  all_goals exact nomatch hmain.symm.trans hpc

/-- Once `ServiceMain` has returned leaving `service_status_` at running, with
the dispatcher idle, every status sent afterwards says running, whatever
controls follow. -/
theorem run_running_after_return {sys sys' : System} {events : List Event}
    (hmain : sys.main = .returned) (hstate : sys.shared.status.currentState = serviceRunning)
    (hidle : sys.handler = .idle) (hrun : sys.run events = some sys') :
    ∃ later, sys'.shared.sent = sys.shared.sent ++ later ∧
      ∀ s ∈ later, s.currentState = serviceRunning := by
  have h : StuckRunning sys.shared.sent sys :=
    ⟨hmain, hstate, by rw [hidle]; nofun, [], (List.append_nil _).symm, nofun⟩
  exact (System.run_preserves StuckRunning.step h hrun).2.2.2

/-- The handler reads running before `ServiceMain` writes stopped and writes
it back before `ServiceMain` sends: `ServiceMain` returns with nothing but
running ever sent, and a second stop sends running again. -/
theorem run_running_after_return_torn :
    ∃ sys, (System.start ⟨serviceStartPending, noError, 1000, 0, 1⟩).run
        [.control serviceControlStop, .handler, .main, .main, .handler, .main, .main, .main, .main,
          .main, .main, .handler, .handler, .handler, .handler, .handler, .handler] = some sys ∧
      sys.shared.sent.all (·.currentState = serviceRunning) ∧
      ∃ sys', sys.run [.control serviceControlStop, .handler, .handler, .handler, .handler, .handler,
          .handler, .handler, .handler] = some sys' ∧
        (sys.main = .returned ∧ sys.shared.status.currentState = serviceRunning ∧
          sys.handler = .idle ∧
          ∃ later, sys'.shared.sent = sys.shared.sent ++ later ∧
            ∀ s ∈ later, s.currentState = serviceRunning) :=
  ⟨_, rfl, rfl, _, rfl, rfl, rfl, rfl, @run_running_after_return _ _
    [.control serviceControlStop, .handler, .handler, .handler, .handler, .handler, .handler,
      .handler, .handler] rfl rfl rfl rfl⟩

/-! ## Serialised, the stop lands

If the handler never handles a stop while `ServiceMain` is inside its last
report, that report runs alone: it leaves exactly `stoppedStatus` and sends
it, and every later handler report reads stopped and rewrites the same
values. The runs of `runSerial` are runs of the code
(`System.run_of_runSerial`) that never reach an overlapping state. -/

/-- `ServiceMain` is inside its last report while the dispatcher handles a stop. -/
def System.overlaps (sys : System) : Bool :=
  match sys.main, sys.handler with
  | .reporting _, .idle => false
  | .reporting _, _ => true
  | _, _ => false

/-- A run that never reaches an overlapping state: the runs of the code in
which the handler's stop branch and `ServiceMain`'s last report do not
interleave, as if one lock covered both. -/
def System.runSerial (sys : System) : List Event → Option System
  | [] => some sys
  | event :: events => ((sys.step event).filter (!·.overlaps)).bind (·.runSerial events)

/-- Serialised runs are runs of the code. -/
theorem System.run_of_runSerial {sys sys' : System} {events : List Event}
    (h : sys.runSerial events = some sys') : sys.run events = some sys' := by
  induction events generalizing sys with
  | nil => exact h
  | cons event events ih =>
    obtain ⟨mid, hmid, hrest⟩ := Option.bind_eq_some.mp h
    exact Option.bind_eq_some.mpr ⟨mid, (Option.filter_eq_some.mp hmid).1, ih hrest⟩

/-- A property every non-overlapping step keeps holds after every serialised run. -/
theorem System.runSerial_preserves {P : System → Prop}
    (hstep : ∀ {sys sys' : System} {event : Event}, P sys → sys.step event = some sys' →
      sys'.overlaps = false → P sys')
    {sys sys' : System} {events : List Event} (h : P sys) (hrun : sys.runSerial events = some sys') :
    P sys' := by
  induction events generalizing sys with
  | nil => exact Option.some.inj hrun ▸ h
  | cons event events ih =>
    obtain ⟨mid, hmid, hrest⟩ := Option.bind_eq_some.mp hrun
    obtain ⟨hstep', hserial⟩ := Option.filter_eq_some.mp hmid
    exact ih (hstep h hstep' (by simpa using hserial)) hrest

/-- The status `ServiceMain`'s last report leaves, whatever was there. -/
def stoppedStatus : ServiceStatus := ⟨serviceStopped, noError, 0, serviceAcceptStop, 0⟩

/-- The field a statement writes has in `s` the value it has in `t`. -/
def ReportLine.agrees (s t : ServiceStatus) : ReportLine → Prop
  | .setCurrentState => s.currentState = t.currentState
  | .setWin32ExitCode => s.win32ExitCode = t.win32ExitCode
  | .setWaitHint => s.waitHint = t.waitHint
  | .setControlsAccepted => s.controlsAccepted = t.controlsAccepted
  | .setCheckPoint => s.checkPoint = t.checkPoint
  | .send => True

/-- Statuses that agree on every field the report writes are equal. -/
theorem eq_of_agrees {s t : ServiceStatus} (h : ∀ line ∈ reportLines, line.agrees s t) : s = t := by
  have h₁ : s.currentState = t.currentState := h .setCurrentState (by decide)
  have h₂ : s.win32ExitCode = t.win32ExitCode := h .setWin32ExitCode (by decide)
  have h₃ : s.waitHint = t.waitHint := h .setWaitHint (by decide)
  have h₄ : s.controlsAccepted = t.controlsAccepted := h .setControlsAccepted (by decide)
  have h₅ : s.checkPoint = t.checkPoint := h .setCheckPoint (by decide)
  cases s
  cases t
  simp only [ServiceStatus.mk.injEq] at *
  exact ⟨h₁, h₂, h₃, h₄, h₅⟩

/-- Each statement of `ServiceMain`'s report writes its field as in `stoppedStatus`. -/
theorem agrees_exec_mainStopReport (sh : Shared) (line : ReportLine) :
    line.agrees (line.exec mainStopReport sh).status stoppedStatus := by
  cases line <;> first | rfl | trivial

/-- A statement leaves the field of every other statement alone. -/
theorem ReportLine.agrees_exec_of_ne {r : Report} {sh : Shared} {t : ServiceStatus}
    {line other : ReportLine} (hne : other ≠ line) (h : other.agrees sh.status t) :
    other.agrees (line.exec r sh).status t := by
  cases line <;> cases other <;> first | exact h | exact absurd rfl hne

/-- A handler report of stopped over `stoppedStatus` rewrites the same values. -/
theorem exec_handlerReport_stopped {sh : Shared} (h : sh.status = stoppedStatus) (line : ReportLine) :
    (line.exec (handlerReport serviceStopped) sh).status = stoppedStatus := by
  obtain ⟨status, stopEvent, sent⟩ := sh
  subst h
  cases line <;> rfl

/-- A one-statement rest of the report is the send. -/
theorem eq_send_of_suffix {line : ReportLine} (h : [line] <:+ reportLines) : line = .send := by
  have hlast : ∀ tail ∈ reportLines.tails, tail.length = 1 → tail = [.send] := by decide
  simpa using hlast _ ((List.mem_tails _ _).mpr h) rfl

structure SerialInv (sys : System) : Prop where
  serial : sys.overlaps = false
  reporting : ∀ {rest}, sys.main = .reporting rest →
    rest <:+ reportLines ∧
      (∀ line ∈ reportLines, line ∉ rest → line.agrees sys.shared.status stoppedStatus) ∧
      (rest = [] → sys.shared.sent.getLast? = some sys.shared.status)
  returned : sys.main = .returned →
    sys.shared.status = stoppedStatus ∧ sys.shared.sent.getLast? = some stoppedStatus ∧
      ∀ {state rest}, sys.handler = .reporting state rest → state = serviceStopped

theorem SerialInv.start (status : ServiceStatus) : SerialInv (System.start status) where
  serial := rfl
  reporting h := nomatch h
  returned h := nomatch h

/-- While `ServiceMain` reports in a state that does not overlap, the
dispatcher is idle. -/
theorem System.handler_idle {sys : System} (h : sys.overlaps = false) {rest : List ReportLine}
    (hmain : sys.main = .reporting rest) : sys.handler = .idle := by
  rw [System.overlaps, hmain] at h
  revert h
  cases sys.handler <;> simp

theorem SerialInv.step {sys sys' : System} {event : Event} (h : SerialInv sys)
    (hstep : sys.step event = some sys') (hserial : sys'.overlaps = false) : SerialInv sys' := by
  have hidle := fun {rest} => @System.handler_idle sys h.serial rest
  obtain ⟨-, hrep, hret⟩ := h
  rcases System.step_cases hstep with rfl | ⟨-, rfl⟩ | ⟨hpc, rfl⟩ | ⟨_, hpc, rfl⟩ |
    ⟨state, line, rest, hpc, rfl⟩ | ⟨-, -, rfl⟩ | ⟨hpc, rfl⟩ | ⟨line, rest, hpc, rfl⟩
  · exact ⟨hserial, hrep, hret⟩
  · refine ⟨hserial, fun hm => (nomatch System.handler_idle hserial hm), fun hm => ?_⟩
    obtain ⟨hstatus, hlast, -⟩ := hret hm
    exact ⟨hstatus, hlast, nofun⟩
  · refine ⟨hserial, fun hm => (nomatch hpc.symm.trans (hidle hm)), fun hm => ?_⟩
    obtain ⟨hstatus, hlast, -⟩ := hret hm
    refine ⟨hstatus, hlast, ?_⟩
    rintro _ _ ⟨⟩
    rw [hstatus]
    rfl
  · refine ⟨hserial, fun hm => (nomatch hpc.symm.trans (hidle hm)), fun hm => ?_⟩
    obtain ⟨hstatus, hlast, -⟩ := hret hm
    exact ⟨hstatus, hlast, nofun⟩
  · refine ⟨hserial, fun hm => (nomatch hpc.symm.trans (hidle hm)), fun hm => ?_⟩
    obtain ⟨hstatus, hlast, hstate⟩ := hret hm
    obtain rfl := hstate hpc
    refine ⟨exec_handlerReport_stopped hstatus line, ?_, by rintro _ _ ⟨⟩; rfl⟩
    by_cases hline : line = .send
    · subst hline
      rw [ReportLine.exec_send, List.getLast?_concat, hstatus]
    · rw [ReportLine.exec_sent_of_ne _ _ _ hline]
      exact hlast
  · refine ⟨hserial, ?_, nofun⟩
    rintro _ ⟨⟩
    exact ⟨List.suffix_refl _, fun line hl hn => absurd hl hn, fun h => absurd h (by decide)⟩
  · obtain ⟨-, hagree, hlast⟩ := hrep hpc
    have hstatus : sys.shared.status = stoppedStatus :=
      eq_of_agrees fun line hl => hagree line hl (List.not_mem_nil line)
    refine ⟨hserial, nofun, fun _ => ⟨hstatus, hstatus ▸ hlast rfl, fun hh => ?_⟩⟩
    exact nomatch hh.symm.trans (hidle hpc)
  · obtain ⟨hsuf, hagree, -⟩ := hrep hpc
    refine ⟨hserial, ?_, nofun⟩
    rintro _ ⟨⟩
    refine ⟨(List.suffix_cons line rest).trans hsuf, fun other hl hn => ?_, fun hnil => ?_⟩
    · by_cases hother : other = line
      · subst hother
        exact agrees_exec_mainStopReport _ _
      · exact ReportLine.agrees_exec_of_ne hother
          (hagree other hl (List.not_mem_cons_of_ne_of_not_mem hother hn))
    · subst hnil
      obtain rfl := eq_send_of_suffix hsuf
      rw [ReportLine.exec_send, List.getLast?_concat]

/-- In every run in which the handler never handles a stop while `ServiceMain`
is inside its last report, once `ServiceMain` has returned, `service_status_`
holds exactly `stoppedStatus` and it is the last status the SCM was sent. -/
theorem runSerial_stopped {status : ServiceStatus} {events : List Event} {sys : System}
    (hrun : (System.start status).runSerial events = some sys) (hmain : sys.main = .returned) :
    sys.shared.status = stoppedStatus ∧ sys.shared.sent.getLast? = some stoppedStatus :=
  let h := System.runSerial_preserves SerialInv.step (SerialInv.start status) hrun
  ⟨(h.returned hmain).1, (h.returned hmain).2.1⟩

theorem runSerial_stopped_twice :
    ∃ sys, (System.start ⟨serviceStartPending, noError, 1000, 0, 1⟩).runSerial
        [.control serviceControlStop, .handler, .handler, .handler, .handler, .handler, .handler,
          .handler, .handler, .main, .main, .main, .main, .main, .main, .main, .main,
          .control serviceControlStop, .handler, .handler, .handler, .handler, .handler, .handler,
          .handler, .handler] = some sys ∧
      sys.main = .returned ∧
      (sys.shared.status = stoppedStatus ∧ sys.shared.sent.getLast? = some stoppedStatus) :=
  ⟨_, rfl, rfl, @runSerial_stopped _
    [.control serviceControlStop, .handler, .handler, .handler, .handler, .handler, .handler,
      .handler, .handler, .main, .main, .main, .main, .main, .main, .main, .main,
      .control serviceControlStop, .handler, .handler, .handler, .handler, .handler, .handler,
      .handler, .handler] _ rfl rfl⟩

/-! ## `ServiceMain` can always return

`WaitForSingleObject` waits without a deadline, so `ServiceMain` returns only
if a stop control arrives. From any state one does: the dispatcher finishes
what it is doing, takes the stop, and `ServiceMain`'s steps never wait on the
dispatcher again. -/

/-- The dispatcher finishes a report it is inside. -/
theorem System.handler_finishes (state : UInt32) (rest : List ReportLine) :
    ∀ sys : System, sys.handler = .reporting state rest →
      ∃ sys', sys.run (List.replicate (rest.length + 1) .handler) = some sys' ∧
        sys'.handler = .idle := by
  induction rest with
  | nil =>
    intro sys h
    exact ⟨{ sys with handler := .idle }, by rw [List.replicate, System.run_cons, System.step, h]; rfl,
      rfl⟩
  | cons line rest ih =>
    intro sys h
    obtain ⟨sys', hrun, hidle⟩ := ih { sys with
      shared := line.exec (handlerReport state) sys.shared, handler := .reporting state rest } rfl
    exact ⟨sys', by rw [List.length_cons, List.replicate, System.run_cons, System.step, h]; exact hrun,
      hidle⟩

/-- `ServiceMain` finishes a report it is inside. -/
theorem System.main_finishes (rest : List ReportLine) :
    ∀ sys : System, sys.main = .reporting rest →
      ∃ sys', sys.run (List.replicate (rest.length + 1) .main) = some sys' ∧ sys'.main = .returned := by
  induction rest with
  | nil =>
    intro sys h
    exact ⟨{ sys with main := .returned }, by rw [List.replicate, System.run_cons, System.step, h]; rfl,
      rfl⟩
  | cons line rest ih =>
    intro sys h
    obtain ⟨sys', hrun, hmain⟩ :=
      ih { sys with shared := line.exec mainStopReport sys.shared, main := .reporting rest } rfl
    exact ⟨sys', by rw [List.length_cons, List.replicate, System.run_cons, System.step, h]; exact hrun,
      hmain⟩

/-- From any state of the two threads, some continuation of the run makes
`ServiceMain` return: the dispatcher always finishes what it is doing, and a
stop control then wakes `ServiceMain`, which nothing blocks again. -/
theorem run_main_returns (sys : System) :
    ∃ events sys', sys.run events = some sys' ∧ sys'.main = .returned := by
  obtain ⟨k, sys₁, hrun₁, hidle⟩ : ∃ k sys₁, sys.run (List.replicate k .handler) = some sys₁ ∧
      sys₁.handler = .idle := by
    rcases hh : sys.handler with _ | _ | ⟨state, rest⟩
    · exact ⟨0, sys, rfl, hh⟩
    · obtain ⟨sys₁, hrun, hidle⟩ := System.handler_finishes _ reportLines
        { sys with handler := .reporting sys.shared.status.currentState reportLines } rfl
      exact ⟨reportLines.length + 1 + 1, sys₁,
        by rw [List.replicate, System.run_cons, System.step, hh]; exact hrun, hidle⟩
    · obtain ⟨sys₁, hrun, hidle⟩ := System.handler_finishes state rest sys hh
      exact ⟨_, sys₁, hrun, hidle⟩
  obtain ⟨more, sys', hrun₂, hret⟩ : ∃ more sys', sys₁.run more = some sys' ∧ sys'.main = .returned := by
    rcases hm : sys₁.main with _ | rest | _
    · obtain ⟨sys', hrun, hret⟩ := System.main_finishes reportLines
        { sys₁ with
          shared := { sys₁.shared with stopEvent := true }
          handler := .stopping
          main := .reporting reportLines } rfl
      refine ⟨.control serviceControlStop :: .main :: List.replicate (reportLines.length + 1) .main,
        sys', ?_, hret⟩
      simp only [System.run_cons, System.step, hidle, hm]
      exact hrun
    · obtain ⟨sys', hrun, hret⟩ := System.main_finishes rest sys₁ hm
      exact ⟨_, sys', hrun, hret⟩
    · exact ⟨[], sys₁, rfl, hm⟩
  exact ⟨_, sys', by rw [System.run_append, hrun₁]; exact hrun₂, hret⟩

end Krypton.Windows
