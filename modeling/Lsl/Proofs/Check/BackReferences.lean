/- # Every declaration knows its uses

In the tree of a script, a variable lists the names that stand for it, a
function its calls and a label the jumps to it: all of them and nothing else, in
the order of creation. This holds of every script, wrong or not. So neither the
filling of a function after its body is resolved nor a call that is given up
loses a use.

Key definitions: `Enumerates`, `Tree.KnowsUses`.
Key theorems: `Tree.Shaped.knowsUses`, `Script.check_knowsUses`.
-/
import Lsl.Proofs.Check.LabelJumps
import Lsl.Proofs.Scoping.Scripts

namespace Lsl

/-- The list has exactly the nodes of this property, each once, in the order of
their creation. -/
def Enumerates (ids : List NodeId) (P : NodeId → Prop) : Prop :=
  ids.Pairwise (· < ·) ∧ ∀ i, i ∈ ids ↔ P i

/-- Every variable knows its names, every function its calls and every label
its jumps. -/
structure Tree.KnowsUses (t : Tree) : Prop where
  names : ∀ d v, t.var? d = some v → Enumerates v.references (t.StandsFor · d)
  calls : ∀ f n, t.function? f = some n → Enumerates n.references (t.Calls · f)
  jumps : ∀ l name jumps info, t.stmt? l = some ⟨.label name jumps, info⟩ →
    Enumerates jumps (t.Jumps · l)

variable {script : Script} {library : Catalog} {t : Tree} {roots : List NodeId} {i d : Nat}

namespace Tree

/-- The uses of a variable are its references. -/
theorem uses_of_var? {v : Variable} (h : t.var? d = some v) : t.uses d = v.references := by
  obtain ⟨k, hk, hv⟩ := Option.bind_eq_some_iff.mp h
  rw [uses_of_kind? hk]
  cases k with
  | global | param =>
    cases hv
    rfl
  | stmt s =>
    rcases s with ⟨kind, info⟩
    cases kind <;> cases hv
    rfl
  | _ => cases hv

/-- Functions and labels are no variables. -/
theorem sort?_of_var? {v : Variable} (h : t.var? d = some v) : t.sort? d ≠ some .function := by
  obtain ⟨k, hk, hv⟩ := Option.bind_eq_some_iff.mp h
  rw [sort?_of_kind? hk]
  cases k with
  | function => cases hv
  | _ => simp [NodeKind.sort]

theorem isLabel_of_var? {v : Variable} {s : StmtNode} (h : t.var? d = some v)
    (hs : t.stmt? d = some s) : s.kind.isLabel = false := by
  rw [var?, stmt?_eq_some.mp hs] at h
  rcases s with ⟨kind, info⟩
  cases kind <;> cases h
  rfl

/-- Only names refer to variables. -/
theorem Shaped.standsFor_iff (hs : t.Shaped script library roots) {v : Variable}
    (hv : t.var? d = some v) : t.target? i = some d ↔ t.StandsFor i d := by
  refine ⟨fun h => ?_, StandsFor.target?⟩
  rcases target?_cases hs h with ⟨hname, -⟩ | ⟨-, hsort⟩ | ⟨-, s, hst, hlabel⟩
  · exact hname
  · exact absurd hsort (sort?_of_var? hv)
  · rw [isLabel_of_var? hv hst] at hlabel
    cases hlabel

/-- Only calls refer to functions. -/
theorem Shaped.calls_iff (hs : t.Shaped script library roots) {f : FunctionNode}
    (hf : t.function? d = some f) : t.target? i = some d ↔ t.Calls i d := by
  have hsort : t.sort? d = some .function := sort?_of_kind? (function?_eq_some.mp hf)
  refine ⟨fun h => ?_, Calls.target?⟩
  rcases target?_cases hs h with ⟨-, v, hv⟩ | ⟨hcall, -⟩ | ⟨-, s, hst, -⟩
  · exact absurd hsort (sort?_of_var? hv)
  · exact hcall
  · rw [sort?_of_kind? (stmt?_eq_some.mp hst)] at hsort
    cases hsort

theorem Shaped.knowsUses (hs : t.Shaped script library roots) (hn : t.NotesUses)
    (ho : t.UsesInOrder) : t.KnowsUses where
  names d v hv :=
    ⟨uses_of_var? hv ▸ ho d, fun i => by rw [← uses_of_var? hv, hn, hs.standsFor_iff hv]⟩
  calls f n hf := by
    have huses : t.uses f = n.references := uses_of_kind? (function?_eq_some.mp hf)
    exact ⟨huses ▸ ho f, fun i => by rw [← huses, hn, hs.calls_iff hf]⟩
  jumps l name jumps info hl := by
    have huses : t.uses l = jumps := uses_of_kind? (stmt?_eq_some.mp hl)
    exact ⟨huses ▸ ho l, fun i => by
      rw [← huses, hn]
      exact ⟨jumps_of_target? hs hl rfl, Jumps.target?⟩⟩

end Tree

/-- **Every script is checked to the end, and in its tree every declaration
knows its uses**: all that refer to it, in the order of creation. -/
theorem Script.check_knowsUses (script : Script) (library : Catalog) (options : CheckOptions) :
    ∃ c, script.check library options = .ok c ∧ c.tree.KnowsUses := by
  obtain ⟨c, run, n, hcheck, -⟩ := script.check_holds library options
  obtain ⟨p, m, hfinished, htree, -⟩ := Script.check_acts hcheck
  refine ⟨c, hcheck, htree ▸ ?_⟩
  exact (Acts.shaped hfinished.acts).knowsUses (Acts.notesUses hfinished.acts)
    (Acts.usesInOrder hfinished.acts)

end Lsl
