import ResourceAgent.Proofs.Pcs.Verdict
import ResourceAgent.Proofs.Reconcile.Commands

/-!
# Deadlines

An operation gives every command the time limit of the parameters. Only a move gets more: it waits
for that time itself, and the seconds that it has beyond it are for telling that the wait has come
to its end. The limit of the client has no part in an operation. It counts where a client moves a
resource by itself: then the wait is for the whole seconds of the limit, and the fraction of a
second goes into the deadline only.
-/
namespace ResourceAgent

namespace Duration

/-- A sum that fits is exact, and the fraction of a second stays as it is. -/
theorem toNat_seconds_of_addSeconds? {d d' : Duration} {n : Nat} (h : d.addSeconds? n = some d') :
    d'.seconds.toNat = d.seconds.toNat + n ∧ d'.nanos = d.nanos := by
  unfold addSeconds? at h
  split_ifs at h with hlt
  cases h
  unfold Text.wordLimit at hlt
  have hn : (UInt64.ofNat n).toNat = n :=
    UInt64.toNat_ofNat_of_lt (lt_of_le_of_lt (Nat.le_add_left _ _) hlt)
  refine ⟨?_, rfl⟩
  rw [UInt64.toNat_add, hn]
  exact Nat.mod_eq_of_lt (by omega)

theorem eq_ofSeconds {d : Duration} (h : d.nanos.val = 0) : d = .ofSeconds d.seconds := by
  obtain ⟨seconds, nanos⟩ := d
  have hnanos : nanos = ⟨0, by decide⟩ := Fin.ext h
  rw [hnanos]
  rfl

end Duration

namespace Pcs

/-- The last argument of a move that waits. -/
theorem getLast?_args_move (name node : String) (n : UInt64) :
    (Command.move name node (some n)).args.getLast? =
      some ("--wait=" ++ toString n.toNat) := rfl

/-- A client moves the resource by `call`, given its time limit. -/
structure Moves (limit : Duration) (name node : String) (call : Invocation) : Prop where
  args : call.args = ["resource", "move", name, node] ++
    if 0 < limit.seconds.toNat then ["--wait=" ++ toString limit.seconds.toNat] else []
  least : (limit.seconds.toNat + 30) * 1000000000 ≤ call.limit.totalNanos
  less : call.limit.totalNanos < (limit.seconds.toNat + 31) * 1000000000
  /-- A `pcs` that ends within thirty seconds after its wait is not cut off. -/
  reports : ∀ (conduct : Conduct) (nanos : Nat), conduct.duration = some nanos →
    nanos < (limit.seconds.toNat + 30) * 1000000000 → conduct.meets call.limit = true

theorem waitArg_moveWait (limit : Duration) : waitArg (Client.moveWait limit) =
    if 0 < limit.seconds.toNat then ["--wait=" ++ toString limit.seconds.toNat] else [] := by
  have hzero : limit.seconds = 0 ↔ limit.seconds.toNat = 0 := UInt64.toNat_inj.symm
  unfold Client.moveWait
  by_cases h : limit.seconds = 0
  · have hn : limit.seconds.toNat = 0 := hzero.mp h
    rw [if_pos h, if_neg (by omega), waitArg]
  · have hn : limit.seconds.toNat ≠ 0 := hzero.not.mp h
    rw [if_neg h, if_pos (by omega), waitArg]

theorem moves_invocation {client : Client} {limit : Duration}
    (h : client.limit.addSeconds? moveGrace = some limit) (name node : String) :
    Moves client.limit name node
      (client.invocation (.move name node (Client.moveWait client.limit)) limit) := by
  obtain ⟨hseconds, hnanos⟩ := Duration.toNat_seconds_of_addSeconds? h
  have hfraction := client.limit.nanos.isLt
  have htotal : limit.totalNanos =
      (client.limit.seconds.toNat + 30) * 1000000000 + client.limit.nanos.val := by
    rw [Duration.totalNanos, hseconds, hnanos, moveGrace]
  have hcall : (client.invocation (.move name node (Client.moveWait client.limit)) limit).limit =
      limit := rfl
  refine ⟨?_, ?_, ?_, ?_⟩
  · have hargs : (Command.move name node (Client.moveWait client.limit)).args =
        ["resource", "move", name, node] ++ waitArg (Client.moveWait client.limit) := rfl
    rw [Client.invocation, hargs, waitArg_moveWait]
  · rw [hcall, htotal]
    omega
  · rw [hcall, htotal]
    omega
  · intro conduct nanos hduration hless
    have hlimit : nanos < limit.totalNanos := by omega
    rw [hcall, Conduct.meets, hduration, Option.any_some]
    exact decide_eq_true hlimit

end Pcs

namespace Manager

variable {m : Manager} {p : Params} {call : Invocation}

/-- The command is run with the given program, in the given seconds; a move gets thirty seconds
more than it waits. -/
structure Timed (binary : String) (timeout : UInt64) (call : Invocation) : Prop where
  program : call.program = binary
  other : call.args[1]? ≠ some "move" → call.limit = .ofSeconds timeout
  move : call.args[1]? = some "move" →
    call.args.getLast? = some ("--wait=" ++ toString timeout.toNat) ∧
      ∃ deadline : UInt64, deadline.toNat = timeout.toNat + 30 ∧ call.limit = .ofSeconds deadline

theorem deadline?_eq_ofSeconds {change : Pcs.Command} {limit : Duration}
    (hd : p.deadline? change = some limit) (hv : change.verb ≠ "move") :
    limit = .ofSeconds p.timeout := by
  cases change with
  | move name node wait => exact absurd rfl hv
  | _ =>
      cases hd
      rfl

theorem Issues.program (h : Issues m p call) : call.program = m.client.binary := by
  cases h <;> rfl

theorem Issues.timed (h : Issues m p call) : Timed m.client.binary p.timeout call where
  program := h.program
  other := by
    intro hv
    cases h with
    | query => rfl
    | @change found change limit hp hd =>
        rw [Pcs.Client.verb_invocation, Ne, Option.some.injEq] at hv
        exact deadline?_eq_ofSeconds hd hv
  move := by
    intro hv
    obtain ⟨-, node, limit, -, hd, rfl⟩ := h.eq_move hv
    obtain ⟨hseconds, hnanos⟩ := Duration.toNat_seconds_of_addSeconds? hd
    refine ⟨Pcs.getLast?_args_move p.name node p.timeout, limit.seconds, hseconds, ?_⟩
    exact Duration.eq_ofSeconds (congrArg Fin.val hnanos)

/-- An operation does not look at the limit of its client. -/
theorem ensure_withLimit (m : Manager) (p : Params) (limit : Duration) :
    ({ m with client := m.client.withLimit limit } : Manager).ensure p = m.ensure p := rfl

variable {σ : Type} (runner : Runner σ) (state : σ)

/-- Every command of an operation is run in the seconds of the parameters, a move in thirty more
than it waits for, and the limit of the client makes no difference. A client that moves a resource,
be it in its own time or in another, waits for the whole seconds it has, if there are any. -/
theorem deadlines_exact :
    (∀ (m : Manager) (p : Params),
      (∀ call ∈ ((m.ensure p).run.hold runner state).calls,
        Timed m.client.binary p.timeout call) ∧
      ∀ limit : Duration,
        ({ m with client := m.client.withLimit limit } : Manager).ensure p = m.ensure p) ∧
    ∀ client client' : Pcs.Client, (client' = client ∨ ∃ limit, client' = client.withLimit limit) →
      client'.limit.seconds.toNat + 30 < 2 ^ 64 → ∀ name node : String,
        ∃ call, ((client'.relocate name node).run.hold runner state).calls = [call] ∧
          call.program = client.binary ∧ Pcs.Moves client'.limit name node call := by
  constructor
  · intro m p
    refine ⟨fun call hcall => ?_, ensure_withLimit m p⟩
    exact (issues_of_mem_calls runner state hcall).2.timed
  · intro client client' hscope hfits name node
    have hbinary : client'.binary = client.binary := by
      rcases hscope with rfl | ⟨limit, rfl⟩
      · rfl
      · rfl
    have hlimit : client'.limit.addSeconds? Pcs.moveGrace = some
        { client'.limit with seconds := client'.limit.seconds + UInt64.ofNat Pcs.moveGrace } :=
      if_pos hfits
    have hmoves := Pcs.moves_invocation hlimit name node
    have hcalls := (Pcs.Client.consults_relocate runner state client' hlimit name node).calls
    exact ⟨_, hcalls, hbinary, hmoves⟩

/-- In less than a second there is nothing to wait for. A manager whose client has no more than that
moves a resource in the time of the parameters all the same. -/
theorem deadlines_exact_fraction :
    let limit : Duration := .ofMillis 999
    let client : Pcs.Client := ({ } : Pcs.Client).withLimit limit
    let m : Manager := { client }
    let p : Params := { name := "db", state := .relocated, node := some "b", timeout := 60 }
    let answers : List Answer := [.ok { stdout := "db:1" }, .ok { }, .ok { stdout := "db:1" }]
    let calls := ((m.ensure p).run.hold scripted answers).calls
    client.limit.seconds.toNat + 30 < 2 ^ 64 ∧
      (∃ call, ((client.relocate "db" "b").run.hold scripted []).calls = [call] ∧
        call.args = ["resource", "move", "db", "b"] ∧ Pcs.Moves limit "db" "b" call) ∧
      calls = [⟨"pcs", ["resource", "config", "db"], .ofSeconds 60⟩,
        ⟨"pcs", ["resource", "move", "db", "b", "--wait=60"], .ofSeconds 90⟩,
        ⟨"pcs", ["resource", "config", "db"], .ofSeconds 60⟩] ∧
      ∀ call ∈ calls, Timed "pcs" 60 call := by
  intro limit client m p answers calls
  have hfits : client.limit.seconds.toNat + 30 < 2 ^ 64 := by decide
  obtain ⟨call, hcalls, -, hmoves⟩ :=
    (deadlines_exact scripted []).2 { } client (.inr ⟨limit, rfl⟩) hfits "db" "b"
  have htimed := ((deadlines_exact scripted answers).1 m p).1
  exact ⟨hfits, ⟨call, hcalls, hmoves.args, hmoves⟩, by decide +kernel, htimed⟩

end Manager

end ResourceAgent
