/- # Names stand for what is declared around them

Every place of a script where a name is used becomes a node that is bound to
what the name stands for there, told from the script alone. The names that
stand for nothing are reported, each as often as it is used, and no others.

Key theorems: `Script.names_selected`.
-/
import Lsl.Proofs.Scoping.Scripts
import Lsl.Script.Build

namespace Lsl

/-- **Names are resolved lexically.** A name stands for the first local variable
of the innermost block that has one above the place, else for the first
parameter, the first global or the constant of that name. A call runs the first
function of the script that has its name, unless the library has one. -/
theorem Script.names_selected (script : Script) (library : Catalog) (options : CheckOptions) :
    ∃ c, script.check library options = .ok c
      ∧ (∀ x ∈ script.sites, x.2.Bound library x.1 c.tree)
      ∧ (c.notices.filter (·.isLookup)).Perm
        (script.sites.filterMap fun x => x.2.report? library x.1) := by
  obtain ⟨c, run, n, hcheck, hholds, htree, hperm, -⟩ := script.check_holds library options
  refine ⟨c, hcheck, fun x hx => htree ▸ hholds.bound x hx, ?_⟩
  rw [← hholds.reports]
  exact hperm.filter _

open Build in
/-- A block that hides a variable of the block around it. -/
def hidingBlock : Script :=
  scriptWithEntry [declare .integer "x" none,
    block [declare .integer "x" (some (ident "x")), exprStmt (ident "x")], exprStmt (ident "x")]

/-- The initial value of the inner variable is the outer one. -/
example : hidingBlock.sites.map (fun x => match x.2 with
    | .name node ident _ blocks => (node, x.1.select {} blocks ident)
    | _ => (0, none))
  = [(2, some (.inner 1)), (4, some (.inner 3)), (8, some (.inner 1))] := by
  decide +kernel

end Lsl
