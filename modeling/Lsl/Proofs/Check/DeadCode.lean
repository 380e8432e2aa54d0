/- # The dead code of a script

The scopes of a script come out of runs of the tracker, one for each, and what
came out of a run stays noted on its statements. So the segments that a scope
has are those of its dead statements, and these are what is reported.

Key definitions: `Tree.Shows`, `Tree.Recorded`.
Key theorems: `Acts.recorded`, `Script.deadCode_partitioned`.
-/
import Lsl.Proofs.Check.Laid
import Lsl.Proofs.Check.Reports
import Lsl.Proofs.Reachability.Segments
import Lsl.Proofs.Scoping.Scripts
import Lsl.Library.Standard
import Lsl.Script.Build

namespace Lsl

variable {script : Script} {library : Catalog} {p p' : Progress} {t t' : Tree}
  {tr tr' : Tracker} {log : List Visit}

/-! ### What a tree shows of a run -/

namespace Tree

/-- The tree has the statements where they were, classified as they were. -/
def Shows (t : Tree) (log : List Visit) : Prop :=
  ∀ v ∈ log, t.Has v.id ∧ t.dead? v.id = some v.reach ∧ t.span v.id = v.span

/-- The tracker has come this far by visits that the tree shows. -/
def Recorded (t : Tree) (tr : Tracker) : Prop :=
  ∃ log, Tracker.Visits { scopeId := tr.scopeId, singleStatement := tr.singleStatement } log tr
    ∧ t.Shows log

theorem dead?_eq {i : Nat} : t.dead? i = (t.place? i).map (·.dead) := by
  rcases hs : t.stmt? i with _ | s
  · rcases hp : t.place? i with _ | info
    · simp [dead?, hs]
    · obtain ⟨s, hs', -⟩ := stmt?_of_place? hp
      simp [hs] at hs'
  · simp [dead?, hs, place?_of_stmt? hs]

variable {P N : Nat → Prop}

theorem Shows.grows (h : t.Shows log) (hg : t.Grows P t')
    (hs : ∀ s ∈ log.map (·.id), t.Fixed P N s) : t'.Shows log := by
  intro v hv
  obtain ⟨hhas, hdead, hspan⟩ := h v hv
  have hfixed := hs v.id (List.mem_map_of_mem hv)
  refine ⟨hg.has hhas, ?_, (hg.span hhas).trans hspan⟩
  rw [dead?_eq, hg.place? hhas hfixed.2.1, ← dead?_eq, hdead]

theorem Recorded.grows (h : t.Recorded tr) (hg : t.Grows P t')
    (hs : ∀ s ∈ tr.statements, t.Fixed P N s) : t'.Recorded tr := by
  obtain ⟨log, hlog, hshows⟩ := h
  refine ⟨log, hlog, hshows.grows hg fun s hmem => hs s ?_⟩
  rw [hlog.statements]
  exact hmem

/-- A visit more, which the tree shows from then on. -/
theorem Recorded.append {id : NodeId} {facts : Facts} {reach : Reach} (h : t.Recorded tr)
    (happ : t.append tr id facts = ⟨t', tr', .ok reach⟩) (hg : t.Grows P t') (hid : t.Has id)
    (hs : ∀ s ∈ tr.statements, t.Fixed P N s) : t'.Recorded tr' := by
  obtain ⟨log, hlog, hshows⟩ := h
  have hv : Visit.Takes ⟨t, id, facts, t', reach⟩ tr tr' := happ
  obtain ⟨hscope, hsingle, -⟩ := hv.scope
  refine ⟨log ++ [⟨t, id, facts, t', reach⟩], ?_, ?_⟩
  · rw [hscope, hsingle]
    exact hlog.snoc hv
  · refine List.forall_mem_append.mpr ⟨hshows.grows hg fun s hmem => hs s ?_, ?_⟩
    · rw [hlog.statements]
      exact hmem
    · intro v hmem
      obtain rfl := List.mem_singleton.mp hmem
      exact ⟨hg.has hid, by rw [hv.dead?, if_pos rfl], hg.span hid⟩

/-- What is known of the segments of a closed scope. -/
theorem Recorded.segments (h : t.Recorded tr) :
    ∃ log, tr.statements = log.map (·.id) ∧ t.Shows log ∧ Partitioned log tr.segments := by
  obtain ⟨log, hlog, hshows⟩ := h
  exact ⟨log, hlog.statements, hshows, hlog.partitioned rfl rfl⟩

end Tree

/-! ### Along a run -/

/-- All scopes, open or closed, come out of runs that the tree shows. -/
structure Progress.Recorded (p : Progress) : Prop where
  opened : ∀ l ∈ p.stack, p.run.tree.Recorded l.tracker
  closed : ∀ x c, p.run.tree.scope? x = some c →
    ∃ tr kind, c = tr.scope kind ∧ p.run.tree.Recorded tr

section Act

variable (hact : Act script library p p') (hs : p.run.tree.Shaped script library p.roots)
  (hs' : p'.run.tree.Shaped script library p'.roots)
include hact hs hs'

theorem Act.recorded_of_open (h : p.Recorded) {l : Level} (hl : l ∈ p.stack) (hl' : l ∈ p'.stack) :
    p'.run.tree.Recorded l.tracker :=
  (h.opened l hl).grows hact.grows (Act.fixed_of_open hs hs' hl hl' (List.Subset.refl _))

/-- The innermost scope gets one more statement. -/
theorem Act.recorded_of_append (h : p.Recorded) {id : NodeId} {facts : Facts} {reach : Reach}
    {aside : List NodeId} {outer : List Level} (hst : p.stack = ⟨tr, aside⟩ :: outer)
    (hst' : p'.stack = ⟨tr', aside⟩ :: outer) (hid : id ∈ p.roots)
    (happ : p.run.tree.append tr id facts = ⟨p'.run.tree, tr', .ok reach⟩) :
    ∀ l ∈ p'.stack, p'.run.tree.Recorded l.tracker := by
  have hstatements := Tree.statements_append happ
  intro l hl
  have hl' := hl
  rw [hst'] at hl
  rcases List.mem_cons.mp hl with rfl | hmem
  · have htop : (⟨tr, aside⟩ : Level) ∈ p.stack := hst ▸ List.mem_cons_self
    refine (h.opened _ htop).append happ hact.grows (hs.orphans id hid).1
      (Act.fixed_of_open hs hs' htop hl' ?_)
    rw [hstatements]
    exact List.subset_append_left _ _
  · exact hact.recorded_of_open hs hs' h (hst ▸ List.mem_cons_of_mem _ hmem) hl'

theorem Act.recorded (h : p.Recorded) : p'.Recorded := by
  have hold := fun (l : Level) hl hl' => hact.recorded_of_open hs hs' h (l := l) hl hl'
  have happend := fun tr tr' => @Act.recorded_of_append _ _ _ _ tr tr' hact hs hs' h
  refine ⟨?_, fun x c hc => ?_⟩
  · cases hact with
    | openScope single =>
      intro l hl
      rcases List.mem_cons.mp hl with rfl | hmem
      · exact ⟨[], .nil, by simp [Tree.Shows]⟩
      · exact hold l hmem hl
    | append id s rest tr tr' aside outer t' reach hl hst hstmt hk happ =>
      exact happend tr tr' hst rfl (Progress.mem_roots_of_loose (hl ▸ List.mem_cons_self)) happ
    | appendLabel id s rest tr tr' aside outer t' reach hl hst hstmt hk hscope hindex happ =>
      exact happend tr tr' hst rfl (List.mem_append_right _ (hl ▸ List.mem_cons_self)) happ
    | closeScope tr aside outer kind span hl hst hpending =>
      exact fun l hmem => hold l (hst ▸ List.mem_cons_of_mem _ hmem) hmem
    | _ => exact fun l hl => hold l hl hl
  · rcases hact.scope?_cases hc with hold | ⟨tr, aside, outer, kind, hst, rfl⟩
    · obtain ⟨tr, kind, rfl, hrec⟩ := h.closed x c hold
      exact ⟨tr, kind, rfl, hrec.grows hact.grows (hact.fixed_of_closed hs hs' hold)⟩
    · have htop : (⟨tr, aside⟩ : Level) ∈ p.stack := hst ▸ List.mem_cons_self
      exact ⟨tr, kind, rfl,
        (h.opened _ htop).grows hact.grows (Act.fixed_of_closing hs hs' htop hc)⟩

end Act

theorem Acts.recorded (h : Acts script library {} p) : p.Recorded := by
  induction h with
  | refl => exact ⟨by simp, fun x c hc => by simp [Tree.scope?, Tree.kind?, Tree.node?] at hc⟩
  | tail hacts hact ih => exact hact.recorded (Acts.shaped hacts) (Acts.shaped (hacts.tail hact)) ih

/-! ### Scripts -/

/-- What is known of the segments of the scopes of a script. -/
theorem Script.check_segments {options : CheckOptions} {c : CheckedScript}
    (h : script.check library options = .ok c) {x : NodeId} {s : CodeScope}
    (hs : c.tree.scope? x = some s) :
    ∃ log, s.statements = log.map (·.id) ∧ s.statements.Nodup ∧ c.tree.Shows log
      ∧ Partitioned log s.deadSegments := by
  obtain ⟨p, n, hfinished, htree, -⟩ := Script.check_acts h
  rw [← htree] at hs ⊢
  obtain ⟨tr, kind, rfl, hrec⟩ := (Acts.recorded hfinished.acts).closed x s hs
  obtain ⟨log, hids, hshows, hpart⟩ := hrec.segments
  exact ⟨log, hids, (Acts.shaped hfinished.acts).once x _ (Tree.scope?_eq_some.mp hs)
    (by simp [NodeKind.sort]) (by simp [NodeKind.sort]), hshows, hpart⟩

/-- **Segments partition the dead code, and each is reported once.** Whatever
statements a tracker takes up, its segments are runs of them, each of one reason
and with the smallest span around it, in the order of where they start, and
every dead statement is in one of them, once, and no other statement is in any.
What is reported about a script are the segments of its scopes, each once. -/
theorem Script.deadCode_partitioned :
    (∀ (scopeId : Nat) (singleStatement : Bool) (log : List Visit) (tr : Tracker),
      Tracker.Visits { scopeId, singleStatement } log tr → (log.map (·.id)).Nodup →
      Partitioned log tr.segments ∧ (tr.segments.flatMap (·.statements)).Nodup)
    ∧ (∀ n : Notice, n.deadCode?.isSome = true ↔ n.code = "W0001" ∨ n.code = "E0405")
    ∧ ∀ (script : Script) (library : Catalog) (options : CheckOptions),
      ∃ c, script.check library options = .ok c
        ∧ (c.notices.filterMap (·.deadCode?)).Perm c.tree.deadCode
        ∧ ∀ x s, c.tree.scope? x = some s →
          ∃ log, s.statements = log.map (·.id) ∧ s.statements.Nodup ∧ c.tree.Shows log
            ∧ Partitioned log s.deadSegments := by
  refine ⟨fun scopeId singleStatement log tr hlog hids => ?_, Notice.isSome_deadCode?,
    fun script library options => ?_⟩
  · have hpart := hlog.partitioned rfl rfl
    refine ⟨hpart, hpart.exact.nodup_iff.mpr ?_⟩
    exact hids.sublist (List.filter_sublist.map _)
  · obtain ⟨c, -, -, hcheck, -⟩ := script.check_holds library options
    exact ⟨c, hcheck, Script.check_accounts hcheck, fun x s hs => Script.check_segments hcheck hs⟩

/-- The statements of a scope: a return with two dead ones behind it, a label
that the live jump behind the scope leads to, a jump out of the scope with a
dead statement behind it. -/
def twoSegments : Tree where
  nodes := #[{ kind := .stmt { kind := .ret none }, span := ⟨0, 7⟩ },
    { kind := .stmt { kind := .empty }, span := ⟨8, 9⟩ },
    { kind := .stmt { kind := .empty }, span := ⟨10, 11⟩ },
    { kind := .stmt { kind := .label "again" [6] }, span := ⟨12, 19⟩ },
    { kind := .stmt { kind := .jump "out" none false }, span := ⟨20, 29⟩ },
    { kind := .stmt { kind := .empty }, span := ⟨30, 31⟩ },
    { kind := .stmt { kind := .jump "again" (some 3) false }, span := ⟨40, 51⟩ }]

section

open Build

/-- Says something behind a return and under a jump that leads over it. -/
def Script.mute : Script :=
  { functions := [function .integer "one" []
      [ret (some (int 1)), exprStmt (call "llOwnerSay" [string "a"])]]
    defaultState := some (state defaultStateName [handler "state_entry" []
      [jump "end", exprStmt (call "llSetText" [string "b"]), label "end",
        exprStmt (call "one" [])]]) }

theorem Script.deadCode_partitioned_twice :
    (∃ log tr, Tracker.Visits { scopeId := 1 } log tr ∧ (log.map (·.id)).Nodup
      ∧ log.map (·.reach) = [.live, .afterReturn, .afterReturn, .live, .live, .afterJumpOut]
      ∧ tr.segments = [⟨.afterReturn, [1, 2], ⟨8, 11⟩⟩, ⟨.afterJumpOut, [5], ⟨30, 31⟩⟩]
      ∧ Partitioned log tr.segments)
    ∧ ∃ c, Script.mute.check .standard { sortNotices := false } = .ok c
      ∧ c.tree.deadCode.Perm [(.afterReturn, {}), (.jumpedOver, {})] := by
  obtain ⟨hruns, -, hscripts⟩ := Script.deadCode_partitioned
  constructor
  · have h0 : Tracker.Visits { scopeId := 1 } [] { scopeId := 1 } := .nil
    have h1 := h0.visit twoSegments 0 { returns := true } .live rfl
    have h2 := (h1.visit twoSegments 1 {} .afterReturn rfl).visit twoSegments 2 {} .afterReturn rfl
    have h3 := h2.visit twoSegments 3 {} .live rfl
    have h4 := h3.visit twoSegments 4 { constantJump := some ⟨4, 4, 6, 9, 0⟩ } .live rfl
    have h5 := h4.visit twoSegments 5 {} .afterJumpOut rfl
    have hids : List.Nodup [0, 1, 2, 3, 4, 5] := by decide
    refine ⟨_, _, h5, hids, rfl, ?_, (hruns 1 false _ _ h5 hids).1⟩
    -- the segments stand in order already
    have hsorted : ([⟨.afterReturn, [1, 2], ⟨8, 11⟩⟩, ⟨.afterJumpOut, [5], ⟨30, 31⟩⟩] :
        List DeadSegment).Pairwise (fun a b => decide (a.span.start ≤ b.span.start) = true) := by
      decide
    exact List.mergeSort_of_pairwise hsorted
  · obtain ⟨c, hc, hperm, -⟩ := hscripts Script.mute .standard { sortNotices := false }
    have hcheck : (Script.mute.check .standard { sortNotices := false }).toOption.any
        (fun c => c.notices.filterMap (·.deadCode?)
          == [(.afterReturn, {}), (.jumpedOver, {})]) = true := by decide +kernel
    rw [hc] at hcheck
    exact ⟨c, hc, hperm.symm.trans (.of_eq (eq_of_beq hcheck))⟩

end

end Lsl
