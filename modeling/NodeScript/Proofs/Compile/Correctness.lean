import NodeScript.Proofs.Compile.Simulation

/-!
Compiler correctness. A turn of the machine does what a turn of the walk does, by induction on the
steps of the turn; updates, triggers and loading keep instance and walk in step, so a host cannot
tell a compiled script from its graph as long as no turn uses up its steps.
-/
namespace NodeScript

variable {τ : Type} [Elapsed τ] {g : Graph} {after : List Uuid} {layout : Layout}
  {registry : Registry} {frame : τ}

/-- How the machine stands when a turn of the walk begins at a target. -/
inductive Ready (g : Graph) (after : List Uuid) (layout : Layout) (m : Machine τ) :
    Nat → Option Uuid → Prop
  /-- An execution that has been started, or goes on after a visit. -/
  | arrive {pc : Nat} {target : Option Uuid}
      (leads : Leads (layout.instructions g) (layout.address g) after pc target)
      (awake : m.slept = none) : Ready g after layout m pc target
  | wake {node : Node} {time : Binary32} (asleep : Asleep g layout m node time) :
      Ready g after layout m (layout.address g node.uuid + 1) (some node.uuid)

/-- How machine and walk stand after a turn. -/
inductive Rests (g : Graph) (layout : Layout) (w : Walk τ) (m : Machine τ) : Pace → Prop
  | suspended {node : Node} {time : Binary32} (asleep : Asleep g layout m node time)
      (place : w.place = some node.uuid) : Rests g layout w m .suspended
  | finished (pc : m.pc = none) (slept : m.slept = none) (place : w.place = none) :
      Rests g layout w m .finished

/-- With enough fuel, a turn of the walk ends as a turn of the machine has. -/
def Turns (g : Graph) (layout : Layout) (registry : Registry) (frame : τ) (w : Walk τ)
    (k : Journal) (target : Option Uuid) (result : Pace × Machine τ × Journal) : Prop :=
  ∃ enough w' k',
    (∀ fuel ≥ enough, w.travel g registry frame fuel target k = some (result.1, w', k')) ∧
      Agrees g layout registry w' result.2.1 ∧ result.2.2.effects = k'.effects ∧
      Rests g layout w' result.2.1 result.1

/-- The turns of a unit that end within a number of steps. -/
def TurnsWithin (g : Graph) (after : List Uuid) (layout : Layout) (registry : Registry)
    (frame : τ) (budget bound : Nat) : Prop :=
  ∀ steps < bound, ∀ (pc : Nat) (m : Machine τ) (j : Journal) (w : Walk τ) (k : Journal)
    (target : Option Uuid), Agrees g layout registry w m → j.effects = k.effects →
    Ready g after layout m pc target →
    (Machine.run (layout.program g) frame budget steps pc.toUInt32 m j).2.2.cuts = j.cuts →
    Turns g layout registry frame w k target
      (Machine.run (layout.program g) frame budget steps pc.toUInt32 m j)

/-- A turn that begins with a visit. -/
theorem Mirrors.turns {pc : Addr} {m : Machine τ} {j k : Journal} {w : Walk τ} {node : Node}
    {budget steps : Nat}
    (mirrors : Mirrors g after layout registry frame pc m j (w.visit g registry frame node k))
    (found : g.node? node.uuid = some node)
    (shorter : TurnsWithin g after layout registry frame budget steps)
    (uncut : (Machine.run (layout.program g) frame budget steps pc m j).2.2.cuts = j.cuts) :
    Turns g layout registry frame w k (some node.uuid)
      (Machine.run (layout.program g) frame budget steps pc m j) := by
  cases visit : w.visit g registry frame node k with
  | go next w₁ k₁ =>
    rw [visit] at mirrors
    obtain ⟨n, pc₁, m₁, j₁, moves, leads, agrees, awake, same⟩ := mirrors
    obtain ⟨within, uncut₁, equal⟩ := moves.run_eq uncut
    rw [equal, ← uncut₁] at uncut
    obtain ⟨enough, w', k', travels, rest⟩ := shorter (steps - (n + 1)) (by omega) pc₁ m₁ j₁ w₁ k₁
      next agrees same (.arrive leads awake) uncut
    rw [equal]
    refine ⟨enough + 1, w', k', fun fuel large => ?_, rest⟩
    obtain ⟨fuel, rfl⟩ : ∃ less, fuel = less + 1 := ⟨fuel - 1, by omega⟩
    rw [Walk.travel, found]
    simp only [visit]
    exact travels fuel (by omega)
  | pause w₁ k₁ =>
    rw [visit] at mirrors
    obtain ⟨n, pc₁, m₁, j₁, m', j', other, time, moves, last, agrees, place, asleep, same⟩ :=
      mirrors
    have stopped := moves.run_stop last uncut
    rw [stopped]
    refine ⟨1, w₁, k₁, fun fuel large => ?_, agrees, same, .suspended asleep place⟩
    obtain ⟨fuel, rfl⟩ : ∃ less, fuel = less + 1 := ⟨fuel - 1, by omega⟩
    rw [Walk.travel, found]
    simp only [visit]

theorem turnsWithin (closed : layout.Closed g after) (registry : Registry) (frame : τ)
    (budget bound : Nat) : TurnsWithin g after layout registry frame budget bound := by
  induction bound with
  | zero => exact fun steps below => absurd below (Nat.not_lt_zero _)
  | succ bound ih =>
    intro steps below pc m j w k target agrees same ready uncut
    have shorter : TurnsWithin g after layout registry frame budget steps :=
      fun fewer less => ih fewer (by omega)
    cases ready with
    | wake asleep =>
      exact (asleep.visit agrees closed same).turns (closed.node_mem asleep.member).1 shorter uncut
    | arrive leads awake =>
      cases leads with
      | stop found =>
        have last : Machine.step (layout.program g) frame pc.toUInt32 m j =
            .stop .finished m.finish j := (Machine.StepsTo.finish (closed.fetch found)).step_eq
        have stopped := (Machine.Moves.refl pc.toUInt32 m j).run_stop last uncut
        rw [stopped]
        refine ⟨0, { w with place := none }, k, fun fuel _ => by simp, ?_, same,
          .finished rfl rfl rfl⟩
        exact { agrees with slept := awake.symm.trans agrees.slept }
      | @here uuid member =>
        obtain ⟨node, inside, rfl⟩ := closed.node_of_mem member
        exact (agrees.visit closed awake same inside).turns (closed.node_mem inside).1 shorter uncut
      | @jump pc uuid member found =>
        have first : Machine.step (layout.program g) frame pc.toUInt32 m j =
            .next (layout.address g uuid).toUInt32 m j :=
          (Machine.StepsTo.jump (closed.fetch found)).step_eq
        obtain ⟨within, -, equal⟩ := (Machine.Moves.one first).run_eq uncut
        rw [equal] at uncut ⊢
        exact shorter (steps - 1) (by omega) _ m j w k _ agrees same
          (.arrive (.here member) awake) uncut

/-- What runs next of the waiting triggers. -/
theorem Layout.Closed.nextPending (closed : layout.Closed g after) {script : Script}
    (program : script.program = layout.program g) (triggers : List Trigger) :
    (Walk.nextPending? g triggers = none ∧ Instance.nextPending? script triggers = none) ∨
      ∃ target rest entry, Walk.nextPending? g triggers = some (target, rest) ∧
        Instance.nextPending? script triggers = some (entry.toUInt32, rest) ∧
        Leads (layout.instructions g) (layout.address g) after entry (some target) := by
  induction triggers with
  | nil => exact .inl ⟨rfl, rfl⟩
  | cons trigger rest ih =>
    cases linked : g.successor? g.start.uuid trigger.pin with
    | none =>
      have missing := closed.entry_unlinked linked
      simpa only [Walk.nextPending?, Instance.nextPending?, linked, program, missing] using ih
    | some target =>
      obtain ⟨entry, -, found, leads⟩ := closed.entry_linked linked
      refine .inr ⟨target, rest, entry, ?_, ?_, leads⟩
      · simp only [Walk.nextPending?, linked]
      · simp only [Instance.nextPending?, program, found]

/-- Where an execution stands between two turns. -/
inductive Underway (g : Graph) (after : List Uuid) (layout : Layout) (w : Walk τ)
    (m : Machine τ) : Prop
  | idle (pc : m.pc = none) (slept : m.slept = none) (place : w.place = none)
  | active {pc : Nat} {target : Uuid} (busy : w.phase ≠ .finished)
      (next : m.pc = some pc.toUInt32) (place : w.place = some target)
      (ready : Ready g after layout m pc (some target))

/-- An instance that has been loaded with a unit, and the walk over its graph. -/
structure Loaded (g : Graph) (after : List Uuid) (layout : Layout) (registry : Registry)
    (w : Walk τ) (i : Instance τ) : Prop where
  script : ∃ script, i.script = some script ∧ script.program = layout.program g
  phase : i.phase = w.phase
  loaded : w.phase ≠ .unloaded
  pending : i.pending = w.pending
  capacity : i.config.maxPendingTriggers = w.capacity
  agrees : Agrees g layout registry w i.machine
  underway : Underway g after layout w i.machine

/-- An instance and a walk that a host cannot tell apart. -/
def Corresponds (g : Graph) (after : List Uuid) (layout : Layout) (registry : Registry)
    (w : Walk τ) (i : Instance τ) : Prop :=
  (i = .new w.owner ∧ w = .new w.owner) ∨ Loaded g after layout registry w i

variable {w : Walk τ} {i : Instance τ} {j k : Journal} {script : Script}

omit [Elapsed τ] in
/-- Loading starts both over. -/
theorem Layout.Closed.load (closed : layout.Closed g after) (registry : Registry)
    (program : script.program = layout.program g) (owned : i.machine.owner = w.owner)
    (config : Config) :
    Loaded g after layout registry
      { Walk.new w.owner with
        phase := .running
        place := g.successor? g.start.uuid Trigger.init.pin
        capacity := config.maxPendingTriggers }
      (i.bind script registry config j).1 where
  script := ⟨script, rfl, program⟩
  phase := rfl
  loaded := by simp
  pending := rfl
  capacity := rfl
  agrees := by
    refine ⟨owned, rfl, ?_, ?_, ?_, rfl, fun node => Nat.two_pow_pos 32⟩
    · have fresh : ∀ v : Variable, v.declaration.global.initial =
          Walk.valueOf { Walk.new (τ := τ) w.owner with
            phase := .running
            place := g.successor? g.start.uuid Trigger.init.pin
            capacity := config.maxPendingTriggers } v := by
        intro v
        cases v <;> rfl
      simp [Instance.bind, program, Layout.program, fresh]
    · simp only [Instance.bind, Instance.bindFunctions, program, Layout.program, Array.toList_map,
        List.map_map]
      refine List.map_congr_left fun v _ => ?_
      cases v <;> rfl
    · simp only [Instance.bind, program, Layout.program, Array.size_replicate,
        layout.toNat_frame g]
      exact Nat.le_max_right _ _
  underway := by
    have entries : script.program.entries.init = script.program.entries.get .init := rfl
    cases linked : g.successor? g.start.uuid Trigger.init.pin with
    | none =>
      refine .idle ?_ rfl rfl
      rw [Instance.bind, entries, program, closed.entry_unlinked linked]
    | some target =>
      obtain ⟨entry, -, found, leads⟩ := closed.entry_linked linked
      refine .active (by simp) ?_ rfl (.arrive leads rfl)
      rw [Instance.bind, entries, program, found]

/-- One turn of an execution that is under way, or of none. -/
theorem Underway.turns {m : Machine τ} (underway : Underway g after layout w m)
    (closed : layout.Closed g after) (agrees : Agrees g layout registry w m)
    (same : j.effects = k.effects) (frame : τ) (budget : Nat)
    (uncut : (m.resume (layout.program g) frame budget j).2.2.cuts = j.cuts) :
    Turns g layout registry frame w k w.place (m.resume (layout.program g) frame budget j) := by
  cases underway with
  | idle pc slept place =>
    rw [Machine.resume, pc, place]
    refine ⟨0, { w with place := none }, k, fun fuel _ => by simp, ?_, same,
      .finished pc slept rfl⟩
    exact { agrees with }
  | active busy next place ready =>
    rw [Machine.resume, next] at uncut ⊢
    rw [place]
    exact turnsWithin closed registry frame budget (budget + 1) budget (Nat.lt_succ_self _) _ m j w
      k _ agrees same ready uncut

omit [Elapsed τ] in
/-- What follows a turn is the same for both. -/
theorem Loaded.settle (loaded : Loaded g after layout registry w i)
    (closed : layout.Closed g after) (stored : i.script = some script)
    (program : script.program = layout.program g) {w' : Walk τ} {m' : Machine τ} {pace : Pace}
    (agrees : Agrees g layout registry w' m') (rests : Rests g layout w' m' pace)
    (pending : w'.pending = w.pending) (capacity : w'.capacity = w.capacity) :
    Loaded g after layout registry (w'.settle g pace) (i.settle script pace m') := by
  cases rests with
  | suspended asleep place =>
    exact {
      script := ⟨script, stored, program⟩
      phase := rfl
      loaded := by simp [Walk.settle]
      pending := loaded.pending.trans pending.symm
      capacity := loaded.capacity.trans capacity.symm
      agrees := { agrees with }
      underway := .active (by simp [Walk.settle]) asleep.pc place (.wake asleep) }
  | finished pc slept place =>
    rcases closed.nextPending program w.pending with
      ⟨none, none'⟩ | ⟨target, rest, entry, some, some', leads⟩
    · simp only [Walk.settle, Instance.settle, pending, loaded.pending, none, none']
      exact {
        script := ⟨script, stored, program⟩
        phase := rfl
        loaded := by simp
        pending := rfl
        capacity := loaded.capacity.trans capacity.symm
        agrees := { agrees with }
        underway := .idle pc slept place }
    · simp only [Walk.settle, Instance.settle, pending, loaded.pending, some, some']
      exact {
        script := ⟨script, stored, program⟩
        phase := rfl
        loaded := by simp
        pending := rfl
        capacity := loaded.capacity.trans capacity.symm
        agrees := { agrees with }
        underway := .active (by simp) rfl rfl (.arrive leads slept) }

theorem Loaded.update (loaded : Loaded g after layout registry w i) (closed : layout.Closed g after)
    (same : j.effects = k.effects) (frame : τ) (uncut : (i.update frame j).2.cuts = j.cuts) :
    ∃ enough w' k',
      (∀ fuel ≥ enough, w.handle fuel g registry k (.update frame) = some (w', k')) ∧
        Loaded g after layout registry w' (i.update frame j).1 ∧
        (i.update frame j).2.effects = k'.effects := by
  obtain ⟨script, stored, program⟩ := loaded.script
  have phase := loaded.phase
  have turn (busy : w.phase = .running ∨ w.phase = .suspended) :
      ∃ enough w' k',
        (∀ fuel ≥ enough, w.handle fuel g registry k (.update frame) = some (w', k')) ∧
          Loaded g after layout registry w' (i.update frame j).1 ∧
          (i.update frame j).2.effects = k'.effects := by
    have updated : i.update frame j =
        (i.settle script
            (i.machine.resume (layout.program g) frame i.config.maxStepsPerResume j).1
            (i.machine.resume (layout.program g) frame i.config.maxStepsPerResume j).2.1,
          (i.machine.resume (layout.program g) frame i.config.maxStepsPerResume j).2.2) := by
      rcases busy with busy | busy <;>
        simp only [Instance.update, phase, busy, stored, program]
    rw [updated] at uncut ⊢
    obtain ⟨enough, w', k', travels, agrees, effects, rests⟩ :=
      loaded.underway.turns closed loaded.agrees same frame _ uncut
    obtain ⟨pending, capacity⟩ := Walk.travel_pending (travels enough (Nat.le_refl _))
    refine ⟨enough, _, k', fun fuel large => ?_,
      loaded.settle closed stored program agrees rests pending capacity, effects⟩
    rcases busy with busy | busy <;>
      simp only [Walk.handle, busy, travels fuel large, Option.map_some]
  cases kind : w.phase with
  | unloaded => exact absurd kind loaded.loaded
  | running => exact turn (.inl kind)
  | suspended => exact turn (.inr kind)
  | finished =>
    have still : i.update frame j = (i, j) := by simp only [Instance.update, phase, kind]
    rw [still]
    exact ⟨0, w, k, fun fuel _ => by simp only [Walk.handle, kind], loaded, same⟩

theorem Loaded.trigger (loaded : Loaded g after layout registry w i)
    (closed : layout.Closed g after) (same : j.effects = k.effects) (trigger : Trigger) :
    ∃ w', (∀ fuel, w.handle fuel g registry k (.trigger trigger) = some (w', k)) ∧
      Loaded g after layout registry w' (i.trigger trigger j).1 ∧
      (i.trigger trigger j).2.effects = k.effects := by
  obtain ⟨script, stored, program⟩ := loaded.script
  have phase := loaded.phase
  cases linked : g.successor? g.start.uuid trigger.pin with
  | none =>
    have missing := closed.entry_unlinked linked
    refine ⟨w, fun fuel => by simp only [Walk.handle, linked], ?_⟩
    simp only [Instance.trigger, stored, program, missing]
    exact ⟨loaded, by simp [same]⟩
  | some target =>
    obtain ⟨entry, -, found, leads⟩ := closed.entry_linked linked
    simp only [Instance.trigger, stored, program, found, Walk.handle, linked, loaded.loaded,
      if_false]
    by_cases finished : w.phase = .finished
    · simp only [phase, finished, if_true]
      refine ⟨_, fun _ => rfl, ?_, same⟩
      have awake : i.machine.slept = none := by
        cases loaded.underway with
        | idle pc slept place => exact slept
        | active busy => exact absurd finished busy
      exact { loaded with
        script := ⟨script, rfl, program⟩
        phase := rfl
        loaded := by simp
        agrees := { loaded.agrees with }
        underway := .active (by simp) rfl rfl (.arrive leads awake) }
    · simp only [phase, finished, if_false, loaded.pending, loaded.capacity]
      by_cases room : w.pending.length < w.capacity
      · simp only [room, if_true]
        refine ⟨_, fun _ => rfl, ?_, same⟩
        exact { loaded with
          script := ⟨script, rfl, program⟩
          phase := rfl
          pending := rfl
          agrees := { loaded.agrees with }
          underway := by
            cases loaded.underway with
            | idle pc slept place => exact .idle pc slept place
            | active busy next place ready => exact .active busy next place ready }
      · simp only [room, if_false]
        exact ⟨w, fun _ => rfl, loaded, by simp [same]⟩

theorem Corresponds.handle (corresponds : Corresponds g after layout registry w i)
    (closed : layout.Closed g after) {table : Table} {index : Nat}
    (found : table.get? index = some script) (program : script.program = layout.program g)
    (same : j.effects = k.effects) (call : Call τ)
    (uncut : (i.handle table registry index j call).2.cuts = j.cuts) :
    ∃ enough w' k', (∀ fuel ≥ enough, w.handle fuel g registry k call = some (w', k')) ∧
      Corresponds g after layout registry w' (i.handle table registry index j call).1 ∧
      (i.handle table registry index j call).2.effects = k'.effects := by
  have owned : i.machine.owner = w.owner := by
    rcases corresponds with ⟨rfl, -⟩ | loaded
    · rfl
    · exact loaded.agrees.owner
  cases call with
  | load config =>
    refine ⟨0, _, k, fun _ _ => rfl, ?_⟩
    simp only [Instance.handle, Instance.load, found]
    exact ⟨.inr (closed.load registry program owned config), by simp [Instance.bind, same]⟩
  | update frame =>
    rcases corresponds with ⟨unloaded, fresh⟩ | loaded
    · refine ⟨0, w, k, fun _ _ => by rw [fresh]; rfl, ?_⟩
      rw [unloaded]
      exact ⟨.inl ⟨rfl, fresh⟩, same⟩
    · obtain ⟨enough, w', k', handled, loaded', effects⟩ := loaded.update closed same frame uncut
      exact ⟨enough, w', k', handled, .inr loaded', effects⟩
  | trigger trigger =>
    rcases corresponds with ⟨unloaded, fresh⟩ | loaded
    · have handled : ∀ fuel, w.handle fuel g registry k (.trigger trigger) = some (w, k) := by
        intro fuel
        rw [fresh]
        simp only [Walk.handle, Walk.new, if_true]
        split <;> rfl
      refine ⟨0, w, k, fun fuel _ => handled fuel, ?_⟩
      rw [unloaded]
      exact ⟨.inl ⟨rfl, fresh⟩, by simp [Instance.handle, Instance.trigger, Instance.new, same]⟩
    · obtain ⟨w', handled, loaded', effects⟩ := loaded.trigger closed same trigger
      exact ⟨0, w', k, fun fuel _ => handled fuel, .inr loaded', effects⟩

omit [Elapsed τ] in
theorem Corresponds.shows (corresponds : Corresponds g after layout registry w i) :
    i.phase = w.phase ∧ i.machine.commands.toList = w.commands := by
  rcases corresponds with ⟨rfl, fresh⟩ | loaded
  · rw [fresh]
    exact ⟨rfl, rfl⟩
  · exact ⟨loaded.phase, loaded.agrees.commands⟩

/-- With enough fuel, a walk shows what an instance of the unit has shown. -/
theorem Corresponds.observe (corresponds : Corresponds g after layout registry w i)
    (closed : layout.Closed g after) {table : Table} {index : Nat}
    (found : table.get? index = some script) (program : script.program = layout.program g)
    (same : j.effects = k.effects) (calls : List (Call τ))
    (uncut : (i.follow table registry index calls j).2.cuts = j.cuts) :
    ∃ enough, ∀ fuel ≥ enough,
      w.observe fuel g registry calls k = some (i.observe table registry index calls j) := by
  induction calls generalizing w i j k with
  | nil => exact ⟨0, fun _ _ => rfl⟩
  | cons call rest ih =>
    have first := Instance.cuts_le_handle table registry index i j call
    have later := Instance.cuts_le_follow table registry index rest
      (i.handle table registry index j call).1 (i.handle table registry index j call).2
    have split : i.follow table registry index (call :: rest) j =
        (i.handle table registry index j call).1.follow table registry index rest
          (i.handle table registry index j call).2 := rfl
    rw [split] at uncut
    obtain ⟨enough, w', k', handled, corresponds', effects⟩ :=
      corresponds.handle closed found program same call (by omega)
    obtain ⟨enough', observed⟩ := ih corresponds' effects (by omega)
    obtain ⟨phase, commands⟩ := corresponds'.shows
    refine ⟨max enough enough', fun fuel large => ?_⟩
    have sees := observed fuel (by omega)
    simp only [Walk.observe, handled fuel (by omega), sees, Instance.observe, Option.bind_eq_bind,
      Option.bind_some, phase, commands, effects]
    rfl

/-- A compiled script shows its host what its graph says. For every accepted graph whose unit fits,
compilation succeeds, and however an instance of the script is loaded, updated and triggered, it
shows after each call what the interpretation of the graph shows, as long as no turn uses up its
steps. -/
theorem compile_refines {nodes : List Node} {links : List Link} {g : Graph}
    (accepted : Graph.ofParts nodes links = .ok g) (asset : String)
    (functions : Option Registry) (fits : Job.Fits ⟨g, asset, functions⟩) (uuid : Uuid) :
    ∃ script, (Job.compile ⟨g, asset, functions⟩ uuid).value = .ok script ∧
      ∀ (table : Table) (index : Nat), table.get? index = some script →
        ∀ (registry : Registry) (owner : ObjectId) (calls : List (Call τ)) (j : Journal),
          ((Instance.new owner).follow table registry index calls j).2.cuts = j.cuts →
            ∃ enough, ∀ fuel ≥ enough,
              (Walk.new owner).observe fuel g registry calls j =
                some ((Instance.new owner).observe table registry index calls j) := by
  obtain ⟨rfl, formed⟩ := (Graph.ofParts_eq_ok_iff nodes links g).mp accepted
  obtain ⟨layout, after, laid, closed⟩ := fits.closed formed
  obtain ⟨script, compiled, program, -⟩ := Job.compile_closed laid closed uuid
  refine ⟨script, compiled, fun table index found registry owner calls j uncut => ?_⟩
  have unloaded : Corresponds ⟨nodes, links⟩ after layout registry (.new owner)
      (Instance.new (τ := τ) owner) := .inl ⟨rfl, rfl⟩
  exact unloaded.observe closed found program rfl calls uncut

/-- The sample graph with a function that has been registered, through loading, two updates and
a trigger. -/
theorem compile_refines_sample :
    ∃ script, (Job.compile ⟨Graph.sample, "sample", none⟩ 9).value = .ok script ∧
      ∃ enough, ∀ fuel ≥ enough,
        (Walk.new 7).observe fuel Graph.sample
            (Registry.empty.register (crc32 "f") fun earlier _ => Int32.ofNat earlier.length)
            [.load .standard, .update (⟨0⟩ : Millis), .trigger .collision, .update ⟨0⟩] .empty =
          some ((Instance.new 7).observe ⟨[script]⟩
            (Registry.empty.register (crc32 "f") fun earlier _ => Int32.ofNat earlier.length) 0
            [.load .standard, .update (⟨0⟩ : Millis), .trigger .collision, .update ⟨0⟩]
            .empty) := by
  obtain ⟨script, compiled, refines⟩ :=
    compile_refines (τ := Millis) Graph.sample_accepted "sample" none Graph.sample_fits 9
  refine ⟨script, compiled, refines ⟨[script]⟩ 0 rfl _ 7 _ .empty ?_⟩
  have known : script =
      (Job.compile ⟨Graph.sample, "sample", none⟩ 9).value.toOption.getD .dummy := by
    rw [compiled]
    rfl
  rw [known]
  decide +kernel

end NodeScript
