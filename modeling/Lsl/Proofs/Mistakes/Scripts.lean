/- # Mistakes do not cascade

A script without errors is given another one with the name `n` in place of some of its
expressions, where nothing is called `n`. Then the errors are these names, which mean
nothing, and what is written to their components; there is no other error.

Key definitions: `Opening.Linked`.
Key theorems: `openScript_mirrors`, `resolveBodies_mirrors`, `Script.check_replaced`.
-/
import Lsl.Library.Standard
import Lsl.Proofs.Mistakes.Declarations
import Lsl.Proofs.Scoping.Clean
import Lsl.Script.Build

namespace Lsl

variable {n : String} {L M : Links} {env env' : Env} {run run' r r' : Run}
  {fs gs : List (Fault × Span)} {ids ids' : List NodeId} {library : Catalog} {script script' : Script}

/-! ### Bodies one after the other -/

/-- Declared parts are resolved one after the other, and each reports its own mistakes. -/
theorem CheckBody.Mirrors.forM_zip {δ : Type} {R : δ → δ → List (Fault × Span) → Prop} {ds ds' : List δ}
    {Q : Links → NodeId → NodeId → Prop} {f f' : δ × NodeId → CheckBody PUnit}
    [hu : ∀ x, CheckBody.Upholds (f x)] (ho : L.Outer) (hl : run.Linked n L run')
    (h : Piecewise R ds ds' fs) (hids : List.Forall₂ (Q L) ids ids') (hlength : ids.length = ds.length)
    (hQ : ∀ {M N i j}, M ≤ N → Q M i j → Q N i j)
    (hf : ∀ M d d' gs i j r r', L ≤ M → M.Outer → r.Linked n M r' → R d d' gs → Q M i j →
      CheckBody.Mirrors n M gs r r' (f (d, i)) (f' (d', j)) fun N _ _ _ _ => N.Outer) :
    CheckBody.Mirrors n L fs run run' ((ds.zip ids).forM f) ((ds'.zip ids').forM f')
      fun M _ _ _ _ => M.Outer := by
  induction h generalizing L run run' ids ids' with
  | nil => exact .pure hl ho
  | @cons d d' rest rest' _ _ hd _ ih =>
    cases hids with
    | nil => cases hlength
    | @cons i j is js hij hids =>
      change CheckBody.Mirrors n L _ run run' (f (d, i) >>= fun _ => (rest.zip is).forM f)
        (f' (d', j) >>= fun _ => (rest'.zip js).forM f') _
      refine .bind (hf L d d' _ i j run run' (le_refl L) ho hl hd hij) fun M _ _ r r' hle _ hr ho => ?_
      exact ih ho hr (hids.imp fun _ _ => hQ hle) (Nat.succ.inj hlength)
        fun N d d' gs i j s s' hle' => hf N d d' gs i j s s' (le_trans hle hle')

theorem Optionally.toList {α φ : Type} {R : α → α → List φ → Prop} {a a' : Option α} {fs : List φ}
    (h : Optionally R a a' fs) : Piecewise R a.toList a'.toList fs := by
  cases h with
  | none => exact .nil
  | some h => simpa using Piecewise.cons h .nil

/-! ### The whole script -/

/-- Declarations of scripts that belong together, one for each part of the script. -/
structure Opening.Linked (n : String) (L : Links) (script : Script) (x x' : Env × ScriptNode) : Prop where
  outer : L.Outer
  env : x.1.Linked n L x'.1
  functions : List.Forall₂ L.functions x.2.functions x'.2.functions
  allFunctions : x.2.functions.length = script.functions.length
  defaultState : Option.Rel (fun _ _ => True) x.2.defaultState x'.2.defaultState
  hasDefaultState : x.2.defaultState.isSome = script.defaultState.isSome
  states : List.Forall₂ (fun _ _ => True) x.2.states x'.2.states
  allStates : x.2.states.length = script.states.length

theorem openScript_mirrors (ho : L.Outer) (hl : run.Linked n L run') (hfixed : library.FixedTyped)
    (hconstant : library.constant? n = none) (warnUnused : Bool) {fg ff fd fs : List (Fault × Span)}
    (hg : Piecewise (VarDecl.Replaced n) script.globals script'.globals fg)
    (hf : Piecewise (FunctionDecl.Replaced n) script.functions script'.functions ff)
    (hd : Optionally (StateDecl.Replaced n) script.defaultState script'.defaultState fd)
    (hs : Piecewise (StateDecl.Replaced n) script.states script'.states fs) :
    Check.Mirrors n L fg run run' (openScript library warnUnused script)
      (openScript library warnUnused script') fun M _ _ => Opening.Linked n M script := by
  unfold openScript
  refine .silentBind (declareFunctions_mirrors ho hl library hf .nil) fun M x x' r r' _ _ hr hx => ?_
  obtain ⟨ho, hnames, hfunctions, hall⟩ := hx
  refine .silentBind (declareDefaultState_mirrors ho hr hd) fun N y y' r₁ r₁' _ _ hr₁ hy => ?_
  obtain ⟨rfl, hstates, hdefault, hsome⟩ := hy
  refine .silentBind (declareStates_mirrors ho hr₁ hs hstates) fun P z z' r₂ r₂' _ _ hr₂ hz => ?_
  obtain ⟨rfl, hstates, hstateIds, hallStates⟩ := hz
  have henv : Env.Linked n P { library, warnUnused, functions := x.1, states := z.1 }
      { library, warnUnused, functions := x'.1, states := z'.1 } :=
    ⟨rfl, hconstant, hfixed, hnames, hstates, .nil, rfl, .none⟩
  refine .bindSilent (resolveGlobals_mirrors ho henv hr₂ hg) fun Q w w' r₃ r₃' hle _ hr₃ hw => ?_
  obtain ⟨ho, hglobals, hfresh⟩ := hw
  refine .pure hr₃ ⟨ho, ?_, hfunctions.imp hle.2.1, hall, hdefault, hsome, hstateIds, hallStates⟩
  exact { henv.mono hle with
    globals := hglobals
    fresh := hfresh }

instance quiet_warnUnusedGlobals (globals functions : List NodeId) :
    Check.Quiet (warnUnusedGlobals globals functions) := by
  unfold warnUnusedGlobals
  infer_instance

instance upholds_resolveBodies (env : Env) (script : Script) (n : ScriptNode) :
    CheckBody.Upholds (resolveBodies env script n) := by
  unfold resolveBodies
  infer_instance

theorem resolveBodies_mirrors {n' n'' : ScriptNode} (hl : run.Linked n L run')
    (h : Opening.Linked n L script (env, n') (env', n'')) {ff fd fs : List (Fault × Span)}
    (hf : Piecewise (FunctionDecl.Replaced n) script.functions script'.functions ff)
    (hd : Optionally (StateDecl.Replaced n) script.defaultState script'.defaultState fd)
    (hs : Piecewise (StateDecl.Replaced n) script.states script'.states fs) :
    CheckBody.Mirrors n L (ff ++ fd ++ fs) run run' (resolveBodies env script n')
      (resolveBodies env' script' n'') fun _ _ _ _ _ => True := by
  have hstate : ∀ L', L ≤ L' → ∀ M (d d' : StateDecl) gs (i j : NodeId) r r', L' ≤ M → M.Outer →
      r.Linked n M r' → d.Replaced n d' gs → True → CheckBody.Mirrors n M gs r r'
        (resolveState env d i) (resolveState env' d' j) fun N _ _ _ _ => N.Outer :=
    fun L' hle M d d' gs i j r r' hle' ho hr hd _ =>
      resolveState_mirrors ho (h.env.mono (le_trans hle hle')) hr hd
  have hdefault : script.defaultState.toList.length = n'.defaultState.toList.length := by
    have hsome := h.hasDefaultState
    simp only at hsome
    cases hd : n'.defaultState <;> cases hd' : script.defaultState <;> simp_all
  rw [List.append_assoc]
  unfold resolveBodies
  refine .bind (.forM_zip (Q := fun L => L.functions) h.outer hl hf h.functions h.allFunctions
    (fun hle hij => hle.2.1 _ _ hij) fun M d d' gs i j r r' hle ho hr hd hij =>
      resolveFunction_mirrors ho (h.env.mono hle) hr hd hij) fun M _ _ r r' hle _ hr ho => ?_
  refine .bind (.forM_zip (Q := fun _ _ _ => True) ho hr hd.toList (forall₂_toList h.defaultState)
    hdefault.symm (fun _ _ => trivial) (hstate M hle)) fun N _ _ r₁ r₁' hle₁ _ hr₁ ho => ?_
  refine .bindSilent (.forM_zip (Q := fun _ _ _ => True) ho hr₁ hs h.states h.allStates
    (fun _ _ => trivial) (hstate N (le_trans hle hle₁))) fun P _ _ r₂ r₂' _ _ hr₂ ho => ?_
  refine .warn (le_refl P) hr₂ fun r₃ r₃' hr₃ _ _ => ?_
  exact .lift (Check.Mirrors.mono (.allocOuter ho hr₃ _ _ _ _) fun _ _ _ _ _ _ => trivial)

/-! ### Errors -/

/-- Nothing is linked. -/
def Links.start : Links := ⟨fun _ _ => False, fun _ _ => False, fun _ _ => False⟩

theorem Run.linked_start (n : String) : Run.Linked n Links.start {} {} where
  tree := ⟨fun _ _ h => h.elim, fun _ _ h => h.elim, fun _ _ h => h.elim,
    ⟨fun _ _ _ h => h.elim, fun _ _ _ h => h.elim⟩, fun _ _ h => h.elim⟩
  scopes := .nil
  fresh := rfl
  labels := .nil
  lastScope := rfl

/-- **A script with mistakes has just these errors**, if the other run ends spotless. -/
theorem Script.Replaced.faults (h : script.Replaced n script' fs) (hfixed : library.FixedTyped)
    (hconstant : library.constant? n = none) {warnUnused : Bool} {root root' : NodeId}
    (hrun : resolveScript library warnUnused script {} = .ok (root, run))
    (hrun' : resolveScript library warnUnused script' {} = .ok (root', run'))
    (hclean : run.Spotless) : run'.faults = fs := by
  obtain ⟨hg, hf, hd, hs⟩ := h
  obtain ⟨⟨⟨env, m⟩, r⟩, hopen⟩ : ∃ x, openScript library warnUnused script {} = x := ⟨_, rfl⟩
  obtain ⟨⟨⟨env', m'⟩, r'⟩, hopen'⟩ : ∃ x, openScript library warnUnused script' {} = x := ⟨_, rfl⟩
  rw [resolveScript_run hopen] at hrun
  rw [resolveScript_run hopen'] at hrun'
  have hopened := openScript_mirrors (fun _ _ h => h) (Run.linked_start n) hfixed hconstant warnUnused
    hg hf hd hs
  rw [Check.Mirrors, hopen, hopen'] at hopened
  obtain ⟨M, -, hr, htold, hopened⟩ :=
    hopened (hclean.before ((upholds_resolveBodies env script m).upholds r root run hrun))
  obtain ⟨N, -, -, htold', -⟩ :=
    resolveBodies_mirrors hr hopened hf hd hs root run root' run' hrun hrun' hclean
  rw [htold', htold]
  simp only [Run.faults, List.filterMap_nil, List.nil_append, List.append_assoc]

/-- What a script is checked to. -/
theorem Script.check_run (script : Script) (library : Catalog) (options : CheckOptions) :
    ∃ (root : NodeId) (run : Run) (c : CheckedScript),
      resolveScript library options.warnUnused script {} = .ok (root, run)
      ∧ script.check library options = .ok c ∧ c.tree = run.tree ∧ c.notices.Perm run.notices
      ∧ c.hasErrors = (run.notices.any (·.isFault) || run.tree.hasErrors root) := by
  obtain ⟨root, run, hrun, -⟩ := resolveScript_gives library options.warnUnused script
  refine ⟨root, run, ⟨run.tree, root, run.notices.any (·.isFault) || run.tree.hasErrors root,
    if options.sortNotices then Notice.sort run.notices else run.notices⟩, hrun, ?_, rfl, ?_, rfl⟩
  · unfold Script.check
    change ((resolveScript library options.warnUnused script) {} >>= fun r => _) = _
    rw [hrun]
    rfl
  · change (if options.sortNotices = true then Notice.sort run.notices else run.notices).Perm _
    split
    · exact List.mergeSort_perm _ _
    · exact .refl _

/-- **Mistakes do not cascade.** Where a script without errors has the name `n` in place of
some of its expressions, the errors are that `n` is undefined, once for each place, and
that a component of it is not assignable, once for each that is written to. No other
error comes from what stands around them, as long as no fixed parameter of a library
function has the type `void`. -/
theorem Script.check_replaced {options : CheckOptions} {c : CheckedScript}
    (hfixed : library.FixedTyped) (hconstant : library.constant? n = none)
    (hcheck : script.check library options = .ok c) (hok : c.hasErrors = false)
    (h : script.Replaced n script' fs) :
    ∃ c', script'.check library options = .ok c'
      ∧ (c'.notices.filterMap Notice.fault?).Perm fs := by
  obtain ⟨root, run, c₁, hrun, hcheck₁, htree, -, herrors⟩ := script.check_run library options
  obtain rfl : c₁ = c := Except.ok.inj (hcheck₁.symm.trans hcheck)
  obtain ⟨root', run', c', hrun', hcheck', -, hnotices, -⟩ := script'.check_run library options
  obtain ⟨s, m, hs, hstree⟩ := Script.check_clean hcheck hok
  rw [hok, eq_comm, Bool.or_eq_false_iff, List.any_eq_false] at herrors
  have hclean : run.Spotless := by
    refine ⟨fun ⟨x, hx, hfault⟩ => herrors.1 x hx hfault, ?_⟩
    rw [← htree, ← hstree]
    exact hs.unmarked
  refine ⟨c', hcheck', ?_⟩
  rw [← h.faults hfixed hconstant hrun hrun' hclean]
  exact hnotices.filterMap _

/-- The parameters of the standard library are as they should be. -/
theorem Catalog.fixedTyped_standard : Catalog.standard.FixedTyped := by decide +kernel

open Build in
/-- Writes to a component of a vector, which is shown then. -/
def Script.writing (object shown : Expr) : Script :=
  scriptWithEntry [declare .vector "v" none,
    exprStmt (.binary .assign (.component object .x ⟨36, 39⟩) (float "1.0") ⟨36, 45⟩),
    exprStmt (call "llOwnerSay" [cast .string shown])]

theorem Script.writing_replaced {object object' shown shown' : Expr}
    (h : object.Replaced "q" object' fs) (g : shown.Replaced "q" shown' gs) :
    (Script.writing object shown).Replaced "q" (Script.writing object' shown')
      (fs ++ (Expr.component object' .x ⟨36, 39⟩).lostPart "q" ++ gs) := by
  have hv : VarDecl.Replaced "q" { name := "v", ty := .vector } { name := "v", ty := .vector } [] :=
    ⟨rfl, by decide, rfl, .none⟩
  have hwrite : Expr.Replaced "q" (.binary .assign (.component object .x ⟨36, 39⟩) (.float "1.0" {})
      ⟨36, 45⟩) (.binary .assign (.component object' .x ⟨36, 39⟩) (.float "1.0" {}) ⟨36, 45⟩)
      (fs ++ [] ++ (Expr.component object' .x ⟨36, 39⟩).lostPart "q") := .binary (.component h) .float
  have hshow : Expr.Replaced "q" (.call "llOwnerSay" [.cast .string shown {}] {})
      (.call "llOwnerSay" [.cast .string shown' {}] {}) (gs ++ []) := .call (.cons (.cast g) .nil)
  have hscript : (Script.writing object shown).Replaced "q" (Script.writing object' shown') _ :=
    .mk .nil .nil (.some ⟨rfl, .cons ⟨rfl, .nil, .cons (.plain (.declare hv))
      (.cons (.plain (.expr hwrite)) (.cons (.plain (.expr hshow)) .nil))⟩ .nil⟩) .nil
  simpa only [List.append_nil, List.nil_append, List.append_assoc] using hscript

/-- Both the object of the component and what is shown are mistakes. -/
theorem Script.writing_mistakes :
    ∃ c c', (Script.writing (.ident "v" ⟨36, 37⟩) (.ident "v" ⟨66, 67⟩)).check .standard
        { sortNotices := false } = .ok c ∧ c.hasErrors = false
      ∧ Catalog.standard.FixedTyped ∧ Catalog.standard.constant? "q" = none
      ∧ (Script.writing (.ident "v" ⟨36, 37⟩) (.ident "v" ⟨66, 67⟩)).Replaced "q"
          (Script.writing (.ident "q" ⟨36, 37⟩) (.ident "q" ⟨66, 67⟩))
          [(.undefinedVariable "q", ⟨36, 37⟩), (.notAssignable, ⟨36, 39⟩),
            (.undefinedVariable "q", ⟨66, 67⟩)]
      ∧ (Script.writing (.ident "q" ⟨36, 37⟩) (.ident "q" ⟨66, 67⟩)).check .standard
        { sortNotices := false } = .ok c'
      ∧ (c'.notices.filterMap Notice.fault?).Perm [(.undefinedVariable "q", ⟨36, 37⟩),
          (.notAssignable, ⟨36, 39⟩), (.undefinedVariable "q", ⟨66, 67⟩)] := by
  have hcheck : ((Script.writing (.ident "v" ⟨36, 37⟩) (.ident "v" ⟨66, 67⟩)).check .standard
      { sortNotices := false }).toOption.any (!·.hasErrors) = true := by decide +kernel
  obtain ⟨c, hc, hok⟩ := exists_ok_of_any hcheck
  have hok : c.hasErrors = false := by simpa using hok
  have hconstant : Catalog.standard.constant? "q" = none := by decide +kernel
  have hreplaced := Script.writing_replaced (.name (e := .ident "v" ⟨36, 37⟩) (s := ⟨36, 37⟩))
    (.name (e := .ident "v" ⟨66, 67⟩) (s := ⟨66, 67⟩))
  obtain ⟨c', hc', hfaults⟩ :=
    Script.check_replaced Catalog.fixedTyped_standard hconstant hc hok hreplaced
  exact ⟨c, c', hc, hok, Catalog.fixedTyped_standard, hconstant, hreplaced, hc', hfaults⟩

/-- One name in place of the object of a component that is written to makes two errors. -/
theorem Script.writing_cascades :
    ∃ c c', (Script.writing (.ident "v" ⟨36, 37⟩) (.ident "v" ⟨66, 67⟩)).check .standard
        { sortNotices := false } = .ok c ∧ c.hasErrors = false
      ∧ Catalog.standard.constant? "q" = none
      ∧ (Script.writing (.ident "q" ⟨36, 37⟩) (.ident "v" ⟨66, 67⟩)).check .standard
        { sortNotices := false } = .ok c'
      ∧ c'.notices.filterMap Notice.fault?
        = [(.undefinedVariable "q", ⟨36, 37⟩), (.notAssignable, ⟨36, 39⟩)] := by
  have hcheck : ((Script.writing (.ident "v" ⟨36, 37⟩) (.ident "v" ⟨66, 67⟩)).check .standard
      { sortNotices := false }).toOption.any (!·.hasErrors) = true := by decide +kernel
  have hcheck' : ((Script.writing (.ident "q" ⟨36, 37⟩) (.ident "v" ⟨66, 67⟩)).check .standard
      { sortNotices := false }).toOption.any (fun c => c.notices.filterMap Notice.fault?
        == [(.undefinedVariable "q", ⟨36, 37⟩), (.notAssignable, ⟨36, 39⟩)]) = true := by
    decide +kernel
  obtain ⟨c, hc, hok⟩ := exists_ok_of_any hcheck
  obtain ⟨c', hc', hfaults⟩ := exists_ok_of_any hcheck'
  exact ⟨c, c', hc, by simpa using hok, by decide +kernel, hc', by simpa using hfaults⟩

/-- A library with a function of an integer, and another one of a fixed parameter without type. -/
def Catalog.voidParam : Catalog where
  functions := [("llPick", [
    { name := "llPick", returnType := .integer, params := [{ name := "x", ty := .integer }] },
    { name := "llPick", returnType := .string, params := [{ name := "x", ty := .void }] }])]
  events := [{ name := "state_entry" }]

open Build in
def Script.picking (argument : Expr) : Script :=
  scriptWithEntry [declare .integer "i" (some (call "llPick" [argument]))]

/-- With such a library a mistake in an argument does cascade: the call means the other function. -/
theorem Script.picking_cascades :
    ∃ c c', (Script.picking (.integer "1" {})).check .voidParam { sortNotices := false } = .ok c
      ∧ c.hasErrors = false ∧ Catalog.voidParam.constant? "q" = none
      ∧ (Script.picking (.ident "q" {})).check .voidParam { sortNotices := false } = .ok c'
      ∧ c'.notices.filterMap Notice.fault?
        = [(.undefinedVariable "q", {}), (.initializerMismatch "i" .integer .string, {})] := by
  have hcheck : ((Script.picking (.integer "1" {})).check .voidParam
      { sortNotices := false }).toOption.any (!·.hasErrors) = true := by decide +kernel
  have hcheck' : ((Script.picking (.ident "q" {})).check .voidParam
      { sortNotices := false }).toOption.any (fun c => c.notices.filterMap Notice.fault?
        == [(.undefinedVariable "q", {}), (.initializerMismatch "i" .integer .string, {})]) = true := by
    decide +kernel
  obtain ⟨c, hc, hok⟩ := exists_ok_of_any hcheck
  obtain ⟨c', hc', hfaults⟩ := exists_ok_of_any hcheck'
  exact ⟨c, c', hc, by simpa using hok, rfl, hc', by simpa using hfaults⟩

end Lsl
