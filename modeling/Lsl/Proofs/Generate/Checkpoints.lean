/- # Checkpoints in generated code

Where the runtime may end the script, every function and every event handler starts
with a checkpoint, and so does the body of every loop, with braces or without; every
label that is emitted holds one. So the generated code is guarded: no walk through
the control flow of a method can go on forever, or come back to where it was,
without passing a checkpoint.

Key definitions: `HostMethod.Interruptible`.
Key theorems: `hostBodyWithin_checkpointed`, `Script.checkpoints_on_cycles`.
-/
import Lsl.Proofs.Generate.Layout
import Lsl.Proofs.Generate.Methods
import Lsl.Script.Build

namespace Lsl

variable {script : Script} {library : Catalog} {t : Tree} {roots : List NodeId}

open Generator

/-! ### Bodies -/

/-- The code of a scope is guarded, and where a checkpoint belongs it starts with one. -/
structure Tree.Checkpointed (t : Tree) (id : NodeId) (code : List HostStmt) : Prop where
  guarded : HostStmt.Guarded code
  starts : t.IsScope (·.holdsCheckpoint) id → code.head? = some .checkpoint

theorem Tree.IsScope.imp {kinds kinds' : ScopeKind → Bool} {id : NodeId}
    (h : t.IsScope kinds id) (himp : ∀ k, kinds k = true → kinds' k = true) :
    t.IsScope kinds' id := by
  obtain ⟨c, hc, hk⟩ := h
  exact ⟨c, hc, himp _ hk⟩

theorem Tree.IsScope.holdsCheckpoint_of_loop {id : NodeId} (h : t.IsScope (·.isLoopBody) id) :
    t.IsScope (·.holdsCheckpoint) id :=
  h.imp fun k hk => by simp [ScopeKind.holdsCheckpoint, hk]

theorem Tree.IsScope.holdsCheckpoint_of_callable {id : NodeId}
    (h : t.IsScope (·.isCallableBody) id) : t.IsScope (·.holdsCheckpoint) id :=
  h.imp fun k hk => by simp [ScopeKind.holdsCheckpoint, hk]

/-- What a statement becomes guards the code. -/
theorem stmtCode_guards {body : BodyCode} {k : StmtKind} {code : List HostStmt}
    (h : (stmtCode t true body k).Gives code) (hf : t.FormedStmt script k)
    (hbody : ∀ a b, (body a).Gives b → t.Checkpointed a b) : ∀ x ∈ code, x.Guards := by
  have hloop : ∀ {a b}, (body a).Gives b → t.IsScope (·.isLoopBody) a →
      b.head? = some .checkpoint := fun hb ha => (hbody _ _ hb).starts ha.holdsCheckpoint_of_loop
  intro x hx
  cases k with
  | whileLoop cond scope =>
    obtain ⟨c, -, h⟩ := h.bind
    obtain ⟨b, hb, h⟩ := h.bind
    obtain rfl := h.pure
    obtain rfl := List.mem_singleton.mp hx
    exact hloop hb hf.2
  | doWhile scope cond =>
    obtain ⟨b, hb, h⟩ := h.bind
    obtain ⟨c, -, h⟩ := h.bind
    obtain rfl := h.pure
    obtain rfl := List.mem_singleton.mp hx
    exact hloop hb hf.2
  | forLoop init cond step scope =>
    obtain ⟨i, -, h⟩ := h.bind
    obtain ⟨c, -, h⟩ := h.bind
    obtain ⟨s, -, h⟩ := h.bind
    obtain ⟨b, hb, h⟩ := h.bind
    obtain rfl := h.pure
    obtain rfl := List.mem_singleton.mp hx
    exact hloop hb hf.2.2.2
  | label name jumps =>
    obtain rfl := h.pure
    split at hx
    · cases hx
    · obtain rfl := List.mem_singleton.mp hx
      rfl
  | branch cond thenScope elseIfs elseScope =>
    obtain ⟨c, -, h⟩ := h.bind
    obtain ⟨first, -, h⟩ := h.bind
    obtain ⟨arms, -, h⟩ := h.bind
    cases elseScope with
    | none =>
      obtain rfl := h.pure
      obtain rfl := List.mem_singleton.mp hx
      trivial
    | some last =>
      obtain ⟨final, -, h⟩ := h.bind
      obtain rfl := h.pure
      obtain rfl := List.mem_singleton.mp hx
      trivial
  | expr value =>
    simp only [stmtCode] at h
    split at h
    · obtain ⟨e, -, h⟩ := h.bind
      obtain rfl := h.pure
      obtain rfl := List.mem_singleton.mp hx
      trivial
    · obtain rfl := h.pure
      cases hx
  | declare | ret | block =>
    obtain ⟨e, -, h⟩ := h.bind
    obtain rfl := h.pure
    obtain rfl := List.mem_singleton.mp hx
    trivial
  | jump | stateChange =>
    obtain rfl := h.pure
    obtain rfl := List.mem_singleton.mp hx
    trivial
  | empty =>
    obtain rfl := h.pure
    cases hx

theorem hostStmt_guarded (hshape : t.Shaped script library roots) {body : BodyCode} {id : NodeId}
    {code : List HostStmt} (h : (hostStmt t true body id).Gives code)
    (hbody : ∀ a b, (body a).Gives b → t.Checkpointed a b) : HostStmt.Guarded code := by
  obtain ⟨s, hs, h⟩ := h.bind
  have hf : t.FormedStmt script s.kind :=
    hshape.formed id _ (Tree.stmt?_eq_some.mp hs.expect)
  split at h
  · obtain rfl := h.pure
    exact .nil
  · have hguards := stmtCode_guards h hf hbody
    rcases stmtCode_becomes h with ⟨rfl, -⟩ | ⟨x, rfl, -, hbodies⟩
    · exact .nil
    · refine .cons (hguards x List.mem_cons_self) (fun b hb => ?_) .nil
      obtain ⟨a, -, hab⟩ := exists_of_forall₂_right hbodies hb
      exact (hbody a b hab).guarded

/-- **The code of a scope is guarded**, scope by scope from the inside. -/
theorem hostBodyWithin_checkpointed (hshape : t.Shaped script library roots) :
    ∀ (depth : Nat) {id : NodeId} {code : List HostStmt},
      (hostBodyWithin t true depth id).Gives code → t.Checkpointed id code
  | 0, _, _, h => absurd h not_gives_throw
  | depth + 1, id, code, h => by
    obtain ⟨c, hc, h⟩ := h.bind
    obtain ⟨stmts, hstmts, h⟩ := h.bind
    obtain rfl := h.pure
    have hcode : HostStmt.Guarded stmts.flatten := by
      refine .flatten fun code hmem => ?_
      obtain ⟨s, -, hs⟩ := hstmts.mem_mapM code hmem
      exact hostStmt_guarded hshape hs fun _ _ hb => hostBodyWithin_checkpointed hshape depth hb
    constructor
    · split
      · exact .cons trivial (fun _ hb => by cases hb) hcode
      · exact hcode
    · rintro ⟨c', hc', hk⟩
      obtain rfl := Option.some.inj (hc.expect.symm.trans hc')
      simp [hk]

/-! ### Methods -/

/-- The method stands in the lines, the call on the first line of its body, and no walk
through it comes back or goes on forever without passing the call. -/
def HostMethod.Interruptible (m : HostMethod) (call : String) (lines : List OutputLine) : Prop :=
  ∃ depth inner, m.StandsIn lines depth inner
    ∧ inner.head? = some (.code (depth + 1) (call ++ ";"))
    ∧ (∀ (p : HostPoint) (path : List HostPoint), p.In m.body →
      List.IsChain HostPoint.Flows (p :: path ++ [p]) → ∃ q ∈ p :: path, q.CallsIn call inner)
    ∧ ∀ walk : Nat → HostPoint, walk 0 = .start m.body →
      (∀ n, (walk n).Flows (walk (n + 1))) → ∀ n, ∃ k, n ≤ k ∧ (walk k).CallsIn call inner

/-- A method that starts with a checkpoint and is guarded, is interruptible wherever it
stands. -/
theorem HostMethod.Interruptible.of_guarded {m : HostMethod} {call : String} {depth : Nat}
    {lines : List OutputLine} (hstarts : m.body.head? = some .checkpoint)
    (hguarded : HostStmt.Guarded m.body)
    (hstands : m.StandsIn lines depth (HostStmt.layoutAll call (depth + 1) m.body)) :
    m.Interruptible call lines := by
  refine ⟨depth, _, hstands, ?_, fun p path hp hpath => ?_, fun walk h0 hwalk k => ?_⟩
  · obtain ⟨behind, hbody⟩ := List.head?_eq_some_iff.mp hstarts
    rw [hbody]
    rfl
  · obtain ⟨q, hq, hchecks⟩ := HostPoint.exists_checks_of_cycle hguarded hp hpath
    have hway : (p :: path).IsChain HostPoint.Flows :=
      List.IsChain.prefix hpath (List.prefix_append _ _)
    have hin := HostPoint.in_of_path hp hway q hq
    exact ⟨q, hq, hchecks.callsIn hin⟩
  · have hstart : (walk 0).In m.body := h0 ▸ HostPoint.start_in
    obtain ⟨n, hn, hchecks⟩ := HostPoint.exists_checks_of_run hguarded hstart hwalk k
    exact ⟨n, hn, hchecks.callsIn (HostPoint.in_of_run hstart hwalk n)⟩

theorem Run.Clean.interruptible {run : Run} {root : NodeId} {n : ScriptNode} {u : HostUnit}
    {m : HostMethod} {call : String} {depth : Nat} {lines : List OutputLine}
    (h : run.Clean library script root n) (hu : (hostUnit run.tree true n).Gives u)
    (hstands : u.StandsIn call depth lines) (hm : m ∈ u.methods) : m.Interruptible call lines := by
  obtain ⟨roots, hshape⟩ := h.shaped
  obtain ⟨rules, o, block, body, hemitted⟩ := h.emitted hu hm
  have hcode := hostBodyWithin_checkpointed hshape _ hemitted.code
  exact .of_guarded (hcode.starts hemitted.callable.holdsCheckpoint_of_callable) hcode.guarded
    (hstands.methods m hm)

/-- **Generated code can always be ended.** Where the runtime may end the script, the
output has the call for it on the first line of every function and event handler, and
every cycle of their control flow, be it a loop or made of jumps, passes one. -/
theorem Script.checkpoints_on_cycles {options : CheckOptions} {c : CheckedScript}
    {settings : Settings} {text : String} (h : script.check library options = .ok c)
    (hcoop : settings.coopTermination = true) (hg : c.generate settings = .ok text) :
    ∃ u, c.hostUnit settings = .ok u ∧ OutputLine.WrittenAs (u.layout settings) text
      ∧ ∀ m ∈ u.methods, m.Interruptible settings.coopCall (u.layout settings) := by
  obtain ⟨u, hu, rfl⟩ := CheckedScript.generate_eq_ok.mp hg
  refine ⟨u, hu, OutputLine.renderAll_writtenAs _, fun m hm => ?_⟩
  have hok := CheckedScript.hasErrors_of_hostUnit hu
  obtain ⟨run, n, hclean, htree⟩ := Script.check_clean h hok
  have hunit := hclean.gives_hostUnit htree hu
  rw [hcoop] at hunit
  obtain ⟨depth, hstands⟩ := u.standsIn_layout settings
  exact hclean.interruptible hunit hstands hm

section

open Build

/-- A script with loops of all forms, with a body without braces, and with a jump back
out of a branch. -/
def Script.cycles : Script :=
  { functions := [function .void "spin" [param .integer "n"]
      [label "again",
        branch (ident "n") (block [jump "again"]) [] none]]
    defaultState := some (state defaultStateName [handler "state_entry" []
      [declare .integer "i" (some (int 0)),
        whileLoop (ident "i") (exprStmt (call "spin" [ident "i"])),
        forLoop [assign "i" (int 0)] none [] (block [doWhile (block []) (ident "i")])]]) }

theorem Script.cycles_interruptible :
    ∃ c text, Script.cycles.check .standard { sortNotices := false } = .ok c
      ∧ (Settings.withCoopTermination {}).coopTermination = true
      ∧ c.generate (Settings.withCoopTermination {}) = .ok text
      ∧ ∃ u, c.hostUnit (Settings.withCoopTermination {}) = .ok u
        ∧ OutputLine.WrittenAs (u.layout (Settings.withCoopTermination {})) text
        ∧ ∀ m ∈ u.methods, m.Interruptible (Settings.withCoopTermination {}).coopCall
          (u.layout (Settings.withCoopTermination {})) := by
  have hcheck : (Script.cycles.check .standard { sortNotices := false }).toOption.any
      (fun c => (c.hostUnit (Settings.withCoopTermination {})).toOption.any fun _ => true) = true := by
    decide +kernel
  obtain ⟨c, u, hc, -, hg, -⟩ := Script.exists_hostUnit hcheck
  exact ⟨c, _, hc, rfl, hg, Script.checkpoints_on_cycles hc rfl hg⟩

end

end Lsl
