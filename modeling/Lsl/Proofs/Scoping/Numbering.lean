/- # Scopes, statements and labels by number

The labels of a body are found before its statements are resolved, by going
through the body once; resolving it is a second way through. Both number the
scopes alike and meet the labels in the same order, so a label is in the end
where it was found in the beginning.

Key definitions: `Script.bodies`, `CheckedScript.bodies`, `Tree.LaysOut`,
`Tree.Places`.
Key theorems: `Script.bodies_numbered`.
-/
import Lsl.Proofs.Check.LastStatements
import Lsl.Proofs.Scoping.Scripts

namespace Lsl

variable {library : Catalog} {rules : Rules} {o : Surroundings} {t : Tree} {run : Run}

/-! ### Bodies -/

/-- The bodies of a script: those of the functions, and those of the event
handlers in the default state and in the other states. -/
def Script.bodies (script : Script) : List Block :=
  script.functions.map (·.body) ++ (script.allStates.flatMap (·.handlers)).map (·.body)

/-- The event handlers of a state. -/
def Tree.handlers (t : Tree) (id : NodeId) : List NodeId :=
  match t.kind? id with
  | some (.state s) => s.handlers
  | _ => []

/-- The body of a function or an event handler. -/
def Tree.body? (t : Tree) (id : NodeId) : Option NodeId :=
  match t.kind? id with
  | some (.function f) => f.body
  | some (.handler h) => some h.body
  | _ => none

/-- The bodies of a checked script, in the order of the script. -/
def CheckedScript.bodies (c : CheckedScript) : List NodeId :=
  match c.tree.kind? c.root with
  | some (.script n) => n.functions.filterMap c.tree.body?
    ++ (n.allStates.flatMap c.tree.handlers).filterMap c.tree.body?
  | _ => []

/-- The tree has the body as it is laid out in the script: its scopes are
numbered from 1 in the order they are entered, and its labels are met in the
order they were made, each where it was found beforehand. -/
def Tree.LaysOut (t : Tree) (block : Block) (body : NodeId) : Prop :=
  ∃ scopes first, t.Visits [body] (List.range' 1 scopes)
      (List.range' first block.labelSites.length)
    ∧ ∀ k site, block.labelSites[k]? = some site → t.labelSite? (first + k) = some site

/-- Every statement of the scope knows its scope and its place in it, and
whether it is the last one. -/
def Tree.Places (t : Tree) (c : CodeScope) : Prop :=
  ∀ k id, c.statements[k]? = some id → ∃ s, t.stmt? id = some s ∧ s.info.index = k
    ∧ s.info.scopeId = c.scopeId ∧ (s.info.isLast = true ↔ k + 1 = c.statements.length)

/-! ### What a checked script holds -/

theorem Run.HoldsBody.laysOut {block : Block} {body : NodeId} (h : run.HoldsBody rules o block body) :
    run.tree.LaysOut block body := by
  obtain ⟨last, first, harms, hat, -⟩ := h
  refine ⟨last, first, harms.visits, fun k site hk => ?_⟩
  obtain ⟨hlt, rfl⟩ := List.getElem?_eq_some_iff.mp hk
  have hsite := (List.forall₂_iff_get.mp hat).2 k (by simpa using hlt) hlt
  simpa using hsite

theorem Run.HoldsFunction.laysOut {d : FunctionDecl} {id : NodeId}
    (h : run.HoldsFunction library o d id) :
    ∃ body, run.tree.body? id = some body ∧ run.tree.LaysOut d.body body := by
  obtain ⟨f, body, hf, -, -, -, -, hbody, hholds, -⟩ := h
  exact ⟨body, by simp [Tree.body?, Tree.function?_eq_some.mp hf, hbody], hholds.laysOut⟩

theorem Run.HoldsHandler.laysOut {d : HandlerDecl} {id : NodeId}
    (h : run.HoldsHandler library o d id) :
    ∃ body, run.tree.body? id = some body ∧ run.tree.LaysOut d.body body := by
  obtain ⟨node, n, hkind, -, -, -, hholds⟩ := h
  exact ⟨n.body, by simp [Tree.body?, hkind], hholds.laysOut⟩

/-- Declarations and their nodes give bodies and their nodes. -/
theorem laysOut_bodies {δ : Type} {f : δ → Block} {ds : List δ} {ids : List NodeId}
    (h : List.Forall₂ (fun d id => ∃ body, t.body? id = some body ∧ t.LaysOut (f d) body) ds ids) :
    List.Forall₂ t.LaysOut (ds.map f) (ids.filterMap t.body?) := by
  induction h with
  | nil => exact .nil
  | cons hone _ ih =>
    obtain ⟨body, hbody, hlays⟩ := hone
    rw [List.map_cons, List.filterMap_cons_some hbody]
    exact .cons hlays ih

theorem Run.HoldsScript.laysOut {script : Script} {root : NodeId}
    {n : ScriptNode} (h : run.HoldsScript library script root n) :
    List.Forall₂ run.tree.LaysOut script.bodies
      (n.functions.filterMap run.tree.body?
        ++ (n.allStates.flatMap run.tree.handlers).filterMap run.tree.body?) := by
  refine List.rel_append (laysOut_bodies ?_) (laysOut_bodies ?_)
  · rw [h.functionIds]
    refine List.forall₂_iff_zip.mpr ⟨by simp [Script.functionNodes], fun {d id} hmem => ?_⟩
    rw [Script.functionNodes, zip_numberFunctions] at hmem
    exact (h.functions (d, id) hmem).laysOut
  · refine List.rel_flatMap h.states fun d id hstate => ?_
    obtain ⟨s, hkind, -, hhandlers, -⟩ := hstate
    simp only [Tree.handlers, hkind]
    exact hhandlers.imp fun _ _ hh => hh.laysOut

/-- **Scopes, statements and labels are numbered as they are written.** Every
script is checked to the end. In every body the scopes have the numbers from 1
on, in the order they are entered, and the labels are where they were found
before the body was resolved; in every scope the statements have the numbers
from 0 on. -/
theorem Script.bodies_numbered (script : Script) (library : Catalog) (options : CheckOptions) :
    ∃ c, script.check library options = .ok c
      ∧ List.Forall₂ c.tree.LaysOut script.bodies c.bodies
      ∧ ∀ x scope, c.tree.scope? x = some scope → c.tree.Places scope := by
  obtain ⟨c, run, n, hcheck, hholds, htree, -⟩ := script.check_holds library options
  refine ⟨c, hcheck, ?_, fun x scope hx k id hk => ?_⟩
  · have hkind := hholds.kind
    rw [htree] at hkind
    rw [CheckedScript.bodies, hkind, ← htree]
    exact hholds.laysOut
  · obtain ⟨p, m, hfinished, htree', -⟩ := Script.check_acts hcheck
    rw [← htree'] at hx ⊢
    obtain ⟨info, hplace, hindex, hscope, -⟩ :=
      ((Acts.laid hfinished.acts).closed x scope hx).placed k id hk
    obtain ⟨s, hs, rfl⟩ := Tree.stmt?_of_place? hplace
    have hlast := (Acts.ends hfinished.acts).closed x scope hx k id hk
    rw [Tree.last?_eq, hs] at hlast
    refine ⟨s, hs, hindex, hscope, ?_⟩
    rw [show s.info.isLast = _ from Option.some.inj hlast, decide_eq_true_iff]

end Lsl
