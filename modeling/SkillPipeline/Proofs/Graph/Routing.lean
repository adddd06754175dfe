import SkillPipeline.Proofs.Command.Modes

namespace SkillPipeline

/-- Where a main stream comes from: straight from an input, or out of the graph. -/
inductive Route where
  | input (index : Nat)
  | graph
  deriving DecidableEq

def Route.Leads (medium : Medium) : Route → StreamRef → Prop
  | input index, ref => ref = .stream index medium
  | graph, ref => ∃ name, ref = .label name

namespace Merger

variable {m m' : Merger} {step : String} {f : Fragment} {op : Op} {ops done : List Op}
  {medium other : Medium} {α : Type}

def latest (say? : Op → Option α) (ops : List Op) : Option α := ops.reverse.findSome? say?

theorem latest_append (say? : Op → Option α) :
    latest say? (done ++ [op]) = (say? op).or (latest say? done) := by
  unfold latest
  rw [List.reverse_append, List.findSome?_append, List.reverse_singleton, List.findSome?_singleton]

/-- Where an operation has a main stream come from, if it changes that. -/
def Op.route? (medium : Medium) : Op → Option Route
  | .fragment _ f => if f.nodes ≠ [] ∧ f.replaces medium = true then some .graph else none
  | .replaceAudio index => if medium = .audio then some (.input index) else none
  | _ => none

/-- Whether filters wait for a main stream after an operation, if it changes that. -/
def Op.waiting? (medium : Medium) : Op → Option Bool
  | .chains video audio => if chain medium (.chains video audio) = [] then none else some true
  | .fragment _ f =>
    if f.nodes ≠ [] ∧ (f.reads medium || f.replaces medium) = true then some false else none
  | _ => none

/-- Where a main stream comes from before the filters that wait for it. -/
def source (medium : Medium) (ops : List Op) : Route :=
  (latest (Op.route? medium) ops).getD (.input 0)

/-- Where a main stream comes from once operations have come to an end. -/
def route (medium : Medium) (ops : List Op) : Route :=
  if latest (Op.waiting? medium) ops = some true then .graph else source medium ops

/-- A main stream that a fragment reads without replacing it is that of an input, as the fragment
finds it. -/
theorem Admits.label?_main (h : m.Admits step f) (hkept : f.output? medium = none)
    (hreads : f.reads medium = true) : ((m.entered f).channel medium).main.label? = none := by
  have hsettled {u : Merger} (hu : u.Settles f medium) : (u.channel medium).main.label? = none := by
    rw [Settles, hkept] at hu
    exact hu hreads
  cases medium with
  | video =>
    have hmain := hsettled h.video_settles
    rwa [joined, link_channel] at hmain
  | audio =>
    have hmain := hsettled h.audio_settles
    rwa [rerouted_main, if_neg (by decide), joined, link_channel] at hmain

/-- A fragment gives a medium that it replaces a label, and leaves the main stream of another. -/
theorem extended_main (h : m.Admits step f) (medium : Medium) :
    if f.replaces medium = true then
      ∃ name, ((m.extended step f).channel medium).main = .label name
    else ((m.extended step f).channel medium).main = (m.channel medium).main := by
  unfold Fragment.replaces
  rw [extended_main_eq]
  cases hout : f.output? medium with
  | some out => exact ⟨_, rfl⟩
  | none =>
    -- Filters folded here would leave a label without a successor.
    rw [if_neg (by simp), Option.map_none, Option.getD_none, entered_main]
    refine if_neg fun hfolded => ?_
    have hreads : f.reads medium = true := by simpa [Fragment.replaces, hout] using hfolded.1
    have hlabel := h.label?_main hout hreads
    rw [entered_main, if_pos hfolded] at hlabel
    cases hlabel

theorem restarted_main (index : Nat) (medium : Medium) :
    ((m.restarted index).channel medium).main =
      if medium = .audio then .stream index .audio else (m.channel medium).main := by
  rw [restarted, sunk, link_channel, setMain_channel]
  split <;> rfl

/-- An operation that has a say about a main stream leaves it as it says, and any other as it
was. -/
theorem Step.main (hstep : m.Step op m') (medium : Medium) :
    match op.route? medium with
    | some next => next.Leads medium (m'.channel medium).main
    | none => (m'.channel medium).main = (m.channel medium).main := by
  cases hstep with
  | chains video audio => cases medium <;> rfl
  | nothing empty =>
    rw [Op.route?, if_neg (fun h => h.1 empty)]
  | @fragment step f nonempty admits single =>
    have hmain := extended_main admits medium
    by_cases hreplaces : f.replaces medium = true
    · rw [Op.route?, if_pos ⟨nonempty, hreplaces⟩]
      rwa [if_pos hreplaces] at hmain
    · rw [Op.route?, if_neg fun h => hreplaces h.2]
      rwa [if_neg hreplaces] at hmain
  | @replaceAudio index single =>
    have hmain := restarted_main (m := m) index medium
    by_cases haudio : medium = .audio
    · subst haudio
      exact hmain
    · rw [Op.route?, if_neg haudio]
      rwa [if_neg haudio] at hmain

theorem Step.waiting (hstep : m.Step op m') (medium : Medium) :
    match op.waiting? medium with
    | some waits => (m'.channel medium).pending ≠ [] ↔ waits = true
    | none => (m'.channel medium).pending = (m.channel medium).pending := by
  cases hstep with
  | chains video audio =>
    rw [chained_pending, Op.waiting?]
    split
    · next hsome =>
      split at hsome
      · cases hsome
      · next hnonempty =>
        cases hsome
        exact iff_of_true (List.append_ne_nil_of_right_ne_nil _ hnonempty) rfl
    · next hnone =>
      split at hnone
      · next hempty => rw [hempty, List.append_nil]
      · cases hnone
  | nothing empty => rw [Op.waiting?, if_neg (fun h => h.1 empty)]
  -- A medium that the fragment touches has its filters folded; the other one keeps them.
  | @fragment step f nonempty admits single =>
    have hpending := extended_pending (m := m) step f medium
    by_cases htouched : (f.reads medium || f.replaces medium) = true
    · rw [Op.waiting?, if_pos ⟨nonempty, htouched⟩]
      rw [if_pos htouched] at hpending
      simp [hpending]
    · rw [Op.waiting?, if_neg fun h => htouched h.2]
      rwa [if_neg htouched] at hpending
  | replaceAudio single => exact restarted_pending _ medium

/-- What the operations so far tell of the main streams of a merger. -/
structure Routed (done : List Op) (m : Merger) : Prop where
  main : ∀ medium, (source medium done).Leads medium (m.channel medium).main
  waiting : ∀ medium,
    (m.channel medium).pending ≠ [] ↔ latest (Op.waiting? medium) done = some true

theorem routed_start : ({} : Merger).Routed [] where
  main medium := by cases medium <;> rfl
  waiting medium := by cases medium <;> simp [latest, channel]

theorem Step.routed (hstep : m.Step op m') (h : m.Routed done) : m'.Routed (done ++ [op]) where
  main medium := by
    have hmain := hstep.main medium
    unfold source
    rw [latest_append]
    cases hroute : op.route? medium with
    | some next =>
      rw [hroute] at hmain
      exact hmain
    | none =>
      rw [hroute] at hmain
      rw [hmain, Option.none_or]
      exact h.main medium
  waiting medium := by
    have hwaiting := hstep.waiting medium
    rw [latest_append]
    cases hwaits : op.waiting? medium with
    | some waits =>
      rw [hwaits] at hwaiting
      rw [Option.some_or, Option.some.injEq]
      exact hwaiting
    | none =>
      rw [hwaits] at hwaiting
      rw [hwaiting, Option.none_or]
      exact h.waiting medium

/-- Whatever operations are run, the last ones that have a say tell of the main streams. -/
theorem routed_of_run (hopen : ∀ op ∈ ops, op.Open) (hrun : ({} : Merger).run ops = .ok m) :
    m.Routed ops ∧ m.Single :=
  follows_of_run (P := fun done u => u.Routed done) (Q := fun _ => True) []
    (fun hstep _ hu => hstep.routed hu) routed_start ⟨List.nodup_nil, List.nodup_nil⟩ hopen
    (fun _ _ => trivial) hrun

/-- A graph of which the audio is kept ends with the streams that the operations tell. -/
theorem Routed.ended (h : m.Routed ops) (hgraph : m.mode = .graph) (medium : Medium) :
    (route medium ops).Leads medium ((m.ended true).channel medium).main := by
  have hmain : ((m.ended true).channel medium).main =
      if (m.channel medium).pending = [] then (m.channel medium).main
      else .label (foldName medium (m.channel medium).folds) := by
    rw [Merger.ended, if_pos hgraph]
    change (m.drained.channel medium).main = _
    unfold drained
    cases medium with
    | video => rw [folded_channel_of_ne (by decide), folded_main]
    | audio => rw [folded_main, folded_channel_of_ne (by decide)]
  unfold route
  rw [hmain]
  by_cases hwaits : latest (Op.waiting? medium) ops = some true
  · rw [if_pos hwaits, if_neg ((h.waiting medium).mpr hwaits)]
    exact ⟨_, rfl⟩
  · rw [if_neg hwaits, if_pos (by simpa using mt (h.waiting medium).mp hwaits)]
    exact h.main medium

/-- The streams that a graph ends with, by the operations that have led to it. -/
theorem leads_of_finalize {closed : Merger} {merged : Merged}
    (hrun : ({} : Merger).run ops = .ok m) (hend : m.finalize true = .ok (closed, merged))
    (hgraph : merged.graphMode = true) :
    (route .video ops).Leads .video merged.video ∧
      (route .audio ops).Leads .audio merged.audio := by
  have hmode : m.mode ≠ .finalized := by
    intro hfinalized
    apply apply_finalized hfinalized (.finalize true) closed
    rw [apply, hend]
    rfl
  obtain ⟨hrouted, hsingle⟩ := routed_of_run (open_of_run hrun hmode) hrun
  obtain ⟨-, -, -, rfl⟩ := (finalize_eq_ok hsingle).mp hend
  have hmode' : m.mode = .graph := beq_iff_eq.mp hgraph
  exact ⟨hrouted.ended hmode' .video, hrouted.ended hmode' .audio⟩

end Merger

end SkillPipeline
