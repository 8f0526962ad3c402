import Mathlib.Data.List.Perm.Basic
import Mathlib.Data.List.Nodup

/-!
# The IPsec packet pool

`IpSecPacketPool` owns a fixed vector of packets and lends them out as
`shared_ptr`s whose deleter puts the packet back. Every operation runs under
`mutex_`, so a run of the pool, however many threads take part, is a sequence
of atomic steps: a `Borrow` that pops the back of `available_`, a `Borrow`
that gives up at its deadline and changes nothing, and the deleter of one
outstanding handle calling `Return`. The deadline step may come in any state:
`WaitWithDeadline` is free to report the timeout even when a `Return` has
signalled meanwhile, and `Borrow` then returns null without looking at
`available_` again. The handles themselves are not state of the C++ object; the
model keeps them as a ghost list `lent`, one entry per handle whose deleter has
not run.

The one invariant is `Wf`: `available_` and `lent` together are a permutation
of the packets of `pool_`. It holds after the constructor and every step keeps
it — a `Borrow` moves the back of `available_` to `lent` without reordering
anything, a `Return` moves the handle's packet the other way — so it holds in
every state any run reaches (`run_wf`). The safety facts are read off the
permutation: nothing is in `available_` twice, no two handles hold the same
packet, no packet is lost, and the destructor's wait ends exactly when every
handle has been released.
-/

namespace Krypton

/-- `kPacketPoolSize`. -/
def kPacketPoolSize : Nat := 400

/-- The state `mutex_` guards, and the handles outstanding. A packet is its
index in `pool_`, whose size never changes after construction; the back of
`available_` is the end of the list. -/
structure IpSecPacketPool where
  poolSize : Nat
  available : List Nat
  lent : List Nat
  deriving DecidableEq, Repr

namespace IpSecPacketPool

/-- The constructor, for a `pool_` of `size` packets: each packet's address
pushed onto `available_` in order. `IpSecPacketPool()` is
`create kPacketPoolSize`. -/
def create (size : Nat) : IpSecPacketPool :=
  ⟨size, List.range size, []⟩

/-- `Borrow()`, as one step under `mutex_`: the back of `available_` is popped
and handed out, or, when `available_` stays empty until the deadline, a null
handle is returned and nothing changes. -/
def borrow (pool : IpSecPacketPool) : Option Nat × IpSecPacketPool :=
  if h : pool.available = [] then (none, pool)
  else
    let packet := pool.available.getLast h
    (some packet, { pool with available := pool.available.dropLast, lent := packet :: pool.lent })

/-- `Return(packet)`, called by the deleter of the handle holding `packet`. -/
def returnPacket (pool : IpSecPacketPool) (packet : Nat) : IpSecPacketPool :=
  { pool with available := pool.available ++ [packet], lent := pool.lent.erase packet }

/-- The loop condition of `~IpSecPacketPool`, negated: the destructor stops
waiting once `available_.size() == pool_.size()`. -/
def allReturned (pool : IpSecPacketPool) : Bool :=
  pool.available.length = pool.poolSize

/-- What can happen to the pool: a `Borrow` that checks `available_`, a
`Borrow` whose wait reports its deadline, or the last copy of the handle to
`packet` being dropped. -/
inductive Event where
  | borrow
  | timeout
  | release (packet : Nat)
  deriving DecidableEq, Repr

/-- One atomic step. A release needs a live handle to the packet; `none` is a
step that cannot happen. -/
def step (pool : IpSecPacketPool) : Event → Option IpSecPacketPool
  | .borrow => some pool.borrow.2
  | .timeout => some pool
  | .release packet => if packet ∈ pool.lent then some (pool.returnPacket packet) else none

/-- A run of the pool: its events in order, interleaved from any number of
threads. -/
def run (pool : IpSecPacketPool) : List Event → Option IpSecPacketPool
  | [] => some pool
  | event :: events => (pool.step event).bind (·.run events)

theorem run_cons (pool : IpSecPacketPool) (event : Event) (events : List Event) :
    pool.run (event :: events) = (pool.step event).bind (·.run events) := rfl

theorem run_append (pool : IpSecPacketPool) (events more : List Event) :
    pool.run (events ++ more) = (pool.run events).bind (·.run more) := by
  induction events generalizing pool with
  | nil => rfl
  | cons event events ih =>
    rw [List.cons_append, run_cons, run_cons, Option.bind_assoc]
    simp only [ih]

/-! ## What one step does -/

theorem borrow_of_eq_nil {pool : IpSecPacketPool} (h : pool.available = []) :
    pool.borrow = (none, pool) := dif_pos h

/-- A successful `Borrow` takes the back of `available_`. -/
theorem borrow_of_eq_snoc {pool : IpSecPacketPool} {rest : List Nat} {packet : Nat}
    (h : pool.available = rest ++ [packet]) :
    pool.borrow = (some packet, { pool with available := rest, lent := packet :: pool.lent }) := by
  have hne : pool.available ≠ [] := by simp [h]
  have hlast : pool.available.getLast hne = packet := by simp [h]
  rw [borrow, dif_neg hne, hlast, h, List.dropLast_concat]

theorem borrow_poolSize (pool : IpSecPacketPool) : pool.borrow.2.poolSize = pool.poolSize := by
  unfold borrow
  split <;> rfl

/-- What a step can do: lend the back of `available_`, change nothing, or take
back a packet some handle holds. -/
theorem step_cases {pool pool' : IpSecPacketPool} {event : Event}
    (h : pool.step event = some pool') :
    pool' = pool.borrow.2 ∨ pool' = pool ∨ ∃ packet ∈ pool.lent, pool' = pool.returnPacket packet := by
  cases event with
  | borrow => exact .inl (Option.some.inj h).symm
  | timeout => exact .inr (.inl (Option.some.inj h).symm)
  | release packet =>
    simp only [step] at h
    split at h
    · exact .inr (.inr ⟨packet, ‹_›, (Option.some.inj h).symm⟩)
    · cases h

theorem step_poolSize {pool pool' : IpSecPacketPool} {event : Event}
    (h : pool.step event = some pool') : pool'.poolSize = pool.poolSize := by
  rcases step_cases h with rfl | rfl | ⟨packet, -, rfl⟩
  · exact borrow_poolSize pool
  · rfl
  · rfl

/-! ## The invariant -/

/-- The available and the lent packets are the packets of `pool_`, each once. -/
def Wf (pool : IpSecPacketPool) : Prop :=
  (pool.available ++ pool.lent).Perm (List.range pool.poolSize)

theorem create_wf (size : Nat) : (create size).Wf := by
  simp [Wf, create]

theorem borrow_wf {pool : IpSecPacketPool} (h : pool.Wf) : pool.borrow.2.Wf := by
  by_cases hnil : pool.available = []
  · rwa [borrow_of_eq_nil hnil]
  · have hsnoc := (List.dropLast_concat_getLast hnil).symm
    rw [borrow_of_eq_snoc hsnoc]
    unfold Wf at h ⊢
    rwa [hsnoc, List.append_assoc, List.singleton_append] at h

theorem returnPacket_wf {pool : IpSecPacketPool} {packet : Nat} (h : pool.Wf)
    (hlent : packet ∈ pool.lent) : (pool.returnPacket packet).Wf := by
  unfold Wf at h ⊢
  refine List.Perm.trans ?_ h
  simp only [returnPacket, List.append_assoc, List.singleton_append]
  exact (List.perm_cons_erase hlent).symm.append_left _

theorem step_wf {pool pool' : IpSecPacketPool} {event : Event} (h : pool.Wf)
    (hstep : pool.step event = some pool') : pool'.Wf := by
  rcases step_cases hstep with rfl | rfl | ⟨packet, hlent, rfl⟩
  · exact borrow_wf h
  · exact h
  · exact returnPacket_wf h hlent

theorem run_wf {pool pool' : IpSecPacketPool} {events : List Event} (h : pool.Wf)
    (hrun : pool.run events = some pool') : pool'.Wf ∧ pool'.poolSize = pool.poolSize := by
  induction events generalizing pool with
  | nil =>
    cases hrun
    exact ⟨h, rfl⟩
  | cons event events ih =>
    rw [run_cons] at hrun
    obtain ⟨mid, hmid, hrest⟩ := Option.bind_eq_some.mp hrun
    obtain ⟨hwf, hsize⟩ := ih (step_wf h hmid) hrest
    exact ⟨hwf, hsize.trans (step_poolSize hmid)⟩

/-! ## What the invariant says -/

section Consequences

variable {pool : IpSecPacketPool} (h : pool.Wf)
include h

theorem Wf.nodup : (pool.available ++ pool.lent).Nodup :=
  (List.Perm.nodup_iff h).mpr (List.nodup_range _)

theorem Wf.mem_iff (packet : Nat) :
    packet ∈ pool.available ∨ packet ∈ pool.lent ↔ packet < pool.poolSize := by
  rw [← List.mem_append, List.Perm.mem_iff h, List.mem_range]

theorem Wf.length : pool.available.length + pool.lent.length = pool.poolSize := by
  rw [← List.length_append, List.Perm.length_eq h, List.length_range]

/-- The destructor stops waiting exactly when no handle is outstanding. -/
theorem Wf.allReturned_iff : pool.allReturned = true ↔ pool.lent = [] := by
  have := h.length
  rw [allReturned, decide_eq_true_iff, ← List.length_eq_zero]
  omega

end Consequences

/-- From a well-formed state, releasing every outstanding handle, in any
order, ends the destructor's wait. -/
theorem Wf.drain {pool : IpSecPacketPool} (h : pool.Wf) {order : List Nat}
    (horder : order.Perm pool.lent) :
    ∃ pool', pool.run (order.map .release) = some pool' ∧ pool'.allReturned := by
  induction order generalizing pool with
  | nil => exact ⟨pool, rfl, (h.allReturned_iff).mpr (List.Perm.nil_eq horder).symm⟩
  | cons packet order ih =>
    have hlent : packet ∈ pool.lent := horder.subset (List.mem_cons_self _ _)
    have hrest : order.Perm (pool.returnPacket packet).lent :=
      (List.perm_cons packet).mp (horder.trans (List.perm_cons_erase hlent))
    obtain ⟨pool', hrun, hdone⟩ := ih (returnPacket_wf h hlent) hrest
    exact ⟨pool', by rw [List.map_cons, run_cons, step, if_pos hlent]; exact hrun, hdone⟩

/-- In every state that any run from the constructor reaches: `available_`
holds no packet twice, no two outstanding handles hold the same packet, no
packet is both available and lent, the two together are exactly the packets
of `pool_`, and the destructor's condition `available_.size() ==
pool_.size()` holds exactly when no packet is lent. -/
theorem run_safe {size : Nat} {events : List Event} {pool : IpSecPacketPool}
    (hrun : (create size).run events = some pool) :
    pool.poolSize = size ∧ pool.available.Nodup ∧ pool.lent.Nodup ∧
      pool.available.Disjoint pool.lent ∧
      (∀ packet, packet ∈ pool.available ∨ packet ∈ pool.lent ↔ packet < size) ∧
      (pool.available.length = pool.poolSize ↔ pool.lent = []) := by
  obtain ⟨h, hsize⟩ := run_wf (create_wf size) hrun
  replace hsize : pool.poolSize = size := hsize
  obtain ⟨hav, hlent, hdisj⟩ := List.nodup_append.mp h.nodup
  refine ⟨hsize, hav, hlent, hdisj, fun packet => hsize ▸ h.mem_iff packet, ?_⟩
  rw [← h.allReturned_iff, allReturned, decide_eq_true_iff]

/-- In every state a run reaches, `Borrow` hands out a packet of `pool_` that
no outstanding handle holds, and returns null only when every packet is on
loan, leaving the state as it was. -/
theorem run_borrow_spec {size : Nat} {events : List Event} {pool : IpSecPacketPool}
    (hrun : (create size).run events = some pool) :
    (∀ packet pool', pool.borrow = (some packet, pool') →
      packet < size ∧ packet ∉ pool.lent ∧ pool'.lent = packet :: pool.lent) ∧
    (pool.borrow.1 = none → pool.borrow.2 = pool ∧ pool.lent.length = size ∧
      ∀ packet < size, packet ∈ pool.lent) := by
  obtain ⟨h, hsize⟩ := run_wf (create_wf size) hrun
  replace hsize : pool.poolSize = size := hsize
  obtain ⟨-, -, hdisj⟩ := List.nodup_append.mp h.nodup
  by_cases hnil : pool.available = []
  · rw [borrow_of_eq_nil hnil]
    refine ⟨fun _ _ => nofun, fun _ => ⟨rfl, by simpa [hnil, hsize] using h.length, fun packet hp => ?_⟩⟩
    rw [← hsize, ← h.mem_iff, hnil] at hp
    exact hp.resolve_left (List.not_mem_nil packet)
  · have hsnoc := (List.dropLast_concat_getLast hnil).symm
    have hmem : pool.available.getLast hnil ∈ pool.available := List.getLast_mem hnil
    rw [borrow_of_eq_snoc hsnoc]
    refine ⟨fun packet pool' hb => ?_, nofun⟩
    cases hb
    exact ⟨hsize ▸ (h.mem_iff _).mp (.inl hmem), hdisj hmem, rfl⟩

theorem run_borrow_spec_exhausted :
    ∃ pool, (create 1).run [.borrow] = some pool ∧
      ((∀ packet pool', pool.borrow = (some packet, pool') →
        packet < 1 ∧ packet ∉ pool.lent ∧ pool'.lent = packet :: pool.lent) ∧
      (pool.borrow.1 = none → pool.borrow.2 = pool ∧ pool.lent.length = 1 ∧
        ∀ packet < 1, packet ∈ pool.lent)) :=
  ⟨_, rfl, @run_borrow_spec 1 [.borrow] _ rfl⟩

/-- From every state a run reaches, the destructor's wait ends once every
outstanding handle has been released, in whatever order. -/
theorem run_release_all {size : Nat} {events : List Event} {pool : IpSecPacketPool}
    (hrun : (create size).run events = some pool) {order : List Nat}
    (horder : order.Perm pool.lent) :
    ∃ pool', (create size).run (events ++ order.map .release) = some pool' ∧
      pool'.allReturned := by
  obtain ⟨pool', hdrain, hdone⟩ := (run_wf (create_wf size) hrun).1.drain horder
  exact ⟨pool', by rw [run_append, hrun]; exact hdrain, hdone⟩

theorem run_release_all_reversed :
    ∃ pool, (create 3).run [.borrow, .borrow, .borrow] = some pool ∧
      ([0, 1, 2].Perm pool.lent ∧
      ∃ pool', (create 3).run ([.borrow, .borrow, .borrow] ++ [0, 1, 2].map .release) =
        some pool' ∧ pool'.allReturned) :=
  ⟨_, rfl, by decide, @run_release_all 3 [.borrow, .borrow, .borrow] _ rfl [0, 1, 2] (by decide)⟩

theorem run_safe_drain_refill :
    ∃ pool, (create 2).run [.borrow, .borrow, .release 1, .borrow, .timeout, .release 0,
        .release 1] = some pool ∧
      (pool.poolSize = 2 ∧ pool.available.Nodup ∧ pool.lent.Nodup ∧
        pool.available.Disjoint pool.lent ∧
        (∀ packet, packet ∈ pool.available ∨ packet ∈ pool.lent ↔ packet < 2) ∧
        (pool.available.length = pool.poolSize ↔ pool.lent = [])) :=
  ⟨_, rfl, @run_safe 2 [.borrow, .borrow, .release 1, .borrow, .timeout, .release 0, .release 1] _
    rfl⟩

end IpSecPacketPool

end Krypton
