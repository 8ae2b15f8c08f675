import CodeAtlas.Proofs.Explorer.Noninterference

namespace CodeAtlas

namespace LayoutRun

theorem trace_concat (r : LayoutRun) (ops : List Operation) (op : Operation) :
    r.trace (ops ++ [op]) =
      r.trace ops ++ [((r.after ops).perform op, (r.after ops).notices op)] := by
  induction ops generalizing r with
  | nil => rfl
  | cons first ops ih => exact congrArg _ (ih (r.perform first))

/-- What is told on the way shows in the end: the ticks of a run that has stopped meanwhile, and
nothing otherwise. -/
theorem flatMap_trace (r : LayoutRun) (ops : List Operation) :
    (r.trace ops).flatMap Prod.snd =
      if !r.stopped && (r.after ops).stopped then [.layoutStopped (r.after ops).simulation.ticks]
      else [] := by
  induction ops using List.reverseRecOn with
  | nil =>
    change [] = if !r.stopped && r.stopped then _ else _
    cases r.stopped <;> rfl
  | append_singleton ops op ih =>
    rw [trace_concat, List.flatMap_append, ih, after_concat, List.flatMap_singleton, notices]
    cases hs : (r.after ops).stopped with
    | true =>
      rw [perform_of_stopped _ hs]
      cases r.stopped <;> simp [hs, Simulation.setCenter]
    | false =>
      cases h : r.stopped with
      | true =>
        rw [after_of_stopped r h, h] at hs
        cases hs
      | false => simp

end LayoutRun

namespace Explorer

theorem published_eq_stopped (e : Explorer) (actions : List Action) :
    e.published actions =
      if !e.run.stopped && (e.after actions).run.stopped then
        [.layoutStopped (e.after actions).run.simulation.ticks]
      else [] := by
  rw [published_eq, LayoutRun.flatMap_trace, ← run_after]

theorem ticks_after_of_stopped (e : Explorer) (h : e.run.stopped = true) (actions : List Action) :
    (e.after actions).run.simulation.ticks = e.run.simulation.ticks := by
  rw [run_after, LayoutRun.after_of_stopped _ h]
  rfl

theorem mem_publishes_iff (e : Explorer) (a : Action) (event : Event) :
    event ∈ e.publishes a ↔ e.run.stopped = false ∧ (e.act a).run.stopped = true ∧
      event = .layoutStopped (e.act a).run.simulation.ticks := by
  have h := published_eq_stopped e [a]
  rw [published, published, List.append_nil] at h
  rw [h]
  change event ∈ (if !e.run.stopped && (e.act a).run.stopped then
    [.layoutStopped (e.act a).run.simulation.ticks] else []) ↔ _
  cases e.run.stopped <;> cases (e.act a).run.stopped <;> simp

/-- A viewer that needs no frame stays as it is in a frame. -/
theorem advance_of_rest (e : Explorer) (h : e.needsFrame = false) (now : Instant) :
    e.advance now = (e, []) := by
  rw [needsFrame, Bool.or_eq_false_iff, Bool.not_eq_false'] at h
  obtain ⟨hs, ha⟩ := h
  have hrun : e.run.step now = (e.run, false) := by rw [LayoutRun.step, if_pos hs]
  have hview : e.view.advance now = e.view := by
    rw [View.isAnimating, Option.isSome_eq_false_iff, Option.isNone_iff_eq_none] at ha
    rw [View.advance, ha]
  rw [advance, hrun, hview, hs]
  rfl

theorem after_of_rest (e : Explorer) (h : e.needsFrame = false) (instants : List Instant) :
    e.after (instants.map .advance) = e := by
  induction instants with
  | nil => rfl
  | cons now instants ih =>
    change ((e.advance now).1).after (instants.map .advance) = e
    rw [advance_of_rest e h]
    exact ih

/-- Whatever happens to a viewer, at most one event is published, by the action that stops the
layout, and its ticks are those of every later state. Once a frame has said that no further one is
needed, further frames change nothing, publish nothing and say the same. -/
theorem stop_published_once (e : Explorer) (actions : List Action) :
    (e.published actions).length ≤ 1 ∧
      (∀ a event, event ∈ (e.after actions).publishes a ↔
        (e.after actions).run.stopped = false ∧ ((e.after actions).act a).run.stopped = true ∧
          event = .layoutStopped ((e.after actions).act a).run.simulation.ticks) ∧
      (∀ event ∈ e.published actions, ∃ ticks, event = .layoutStopped ticks ∧
        ∀ more, (e.after (actions ++ more)).run.simulation.ticks = ticks) ∧
      ∀ now, ((e.after actions).advance now).1.needsFrame = false →
        ∀ (instants : List Instant) (next : Instant),
          let rested := ((e.after actions).advance now).1
          (rested.after (instants.map .advance)).advance next = (rested, []) ∧
            ((rested.after (instants.map .advance)).advance next).1.needsFrame = false := by
  refine ⟨?_, fun a event => mem_publishes_iff _ a event, ?_, ?_⟩
  · rw [published_eq_stopped]
    split <;> simp
  · intro event hevent
    rw [published_eq_stopped] at hevent
    split at hevent
    · next hs =>
      rw [Bool.and_eq_true] at hs
      refine ⟨_, List.mem_singleton.mp hevent, fun more => ?_⟩
      rw [← after_append, ticks_after_of_stopped _ hs.2]
    · exact absurd hevent List.not_mem_nil
  · intro now hrest instants next rested
    rw [after_of_rest rested hrest, advance_of_rest rested hrest]
    exact ⟨rfl, hrest⟩

/-- A node is centered. The frame that ends the layout finds the camera's way over, too. -/
theorem stop_published_once_rested :
    ∃ e, start Graph.shared .default ⟨800, 600⟩ 0 = .ok e ∧
      let actions : List Action := [.handle (.recenterNode "a" .sidebar) 5, .advance 16000000]
      let rested := ((e.after actions).advance 3000000000).1
      (e.after actions).needsFrame = true ∧ rested.needsFrame = false ∧
        Event.layoutStopped 1 ∈ (e.after actions).publishes (.advance 3000000000) ∧
        rested.run.simulation.ticks = 1 ∧
        (rested.after ([7, 4000000000].map .advance)).advance 9 = (rested, []) := by
  obtain ⟨e, he⟩ := exists_start_default Graph.shared ⟨800, 600⟩ 0
  refine ⟨e, he, ?_⟩
  intro actions rested
  obtain ⟨_, hpublishes, _, hrest⟩ := stop_published_once e actions
  have h : (start Graph.shared .default ⟨800, 600⟩ 0).toOption.map (fun e =>
      let e := e.after [.handle (.recenterNode "a" .sidebar) 5, .advance 16000000]
      let n := (e.advance 3000000000).1
      (e.needsFrame, n.needsFrame, e.run.stopped, n.run.stopped, n.run.simulation.ticks)) =
        some (true, false, false, true, 1) := by decide +kernel
  rw [he] at h
  simp only [Except.toOption, Option.map_some, Option.some.injEq, Prod.mk.injEq] at h
  obtain ⟨hmoving, hneeds, hrunning, hstopped, hticks⟩ := h
  refine ⟨hmoving, hneeds, ?_, hticks, (hrest 3000000000 hneeds [7, 4000000000] 9).1⟩
  exact (hpublishes (.advance 3000000000) _).mpr ⟨hrunning, hstopped, congrArg _ hticks.symm⟩

end Explorer

end CodeAtlas
