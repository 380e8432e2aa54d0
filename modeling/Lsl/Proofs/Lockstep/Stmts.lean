/- # Statements side by side

Inside a body both runs open and close the same scopes, follow the statements of
each in the same way, and append them with the same classification. So they
resolve a body to the same nodes but for the numbers.

Key definitions: `Pairing.Tracks`, `Pairing.Settled`, `SimStmts`.
Key theorems: `closeScope_sim`, `appendStmt_sim`, `resolveStmts_sim`.
-/
import Lsl.Proofs.Lockstep.Exprs

namespace Lsl

variable {F : Pairing} {run run' : Run} {env env' : Env} {m n : Nat}

/-! ### Scopes -/

/-- Local variables that both runs declared. -/
def Pairing.MadeNames (F : Pairing) (n : Nat) (names names' : Names) : Prop :=
  names' = names.map (fun x => (x.1, F.map x.2)) ∧ ∀ x ∈ names, F.At n x.2

/-- Scopes whose statements both runs follow alike. -/
structure Pairing.Tracks (F : Pairing) (n : Nat) (tr tr' : Tracker) : Prop where
  same : tr' = tr.rename F.map
  statements : ∀ s ∈ tr.statements, F.At n s
  jumps : ∀ j ∈ tr.constantJumps, F.At n j.label
  segmented : tr.Segmented

theorem Pairing.Tracks.mono {tr tr' : Tracker} (h : F.Tracks m tr tr') (hle : m ≤ n) :
    F.Tracks n tr tr' :=
  { h with
    statements := fun s hs => (h.statements s hs).mono hle
    jumps := fun j hj => (h.jumps j hj).mono hle }

/-- Statements that both runs made, with the same facts about them. -/
structure Pairing.Settled (F : Pairing) (n : Nat) (x x' : NodeId × Facts) : Prop where
  made : F.Made n x.1 x'.1
  facts : x'.2 = x.2.rename F.map
  jump : ∀ j ∈ x.2.constantJump, F.At n j.label

theorem Pairing.Settled.plain {id id' : NodeId} (h : F.Made n id id') (returns : Bool) :
    F.Settled n (id, ⟨returns, none⟩) (id', ⟨returns, none⟩) := ⟨h, rfl, by simp⟩

theorem Env.Twin.valueFunction? (h : env.Twin F m env') :
    env'.valueFunction? = env.valueFunction? := by
  have hread : ∀ b : Option Body, (b.filter fun b => !b.isEvent && !b.returnType.isVoid).map (·.name)
      = ((b.map Body.frame).filter fun x => !x.2.2 && !x.2.1.isVoid).map (·.1) := by
    rintro (_ | b)
    · rfl
    · simp only [Option.map_some, Option.filter_some, Body.frame]
      split <;> rfl
  rw [Env.valueFunction?, hread, h.body, ← hread, Env.valueFunction?]

theorem openScope_sim (h : run.Twin F true run') :
    Check.Sim F true run run' openScope openScope fun _ a a' => a' = a := by
  have ha := h.around rfl
  have hnext : run'.lastScope + 1 = run.lastScope + 1 := by rw [ha.lastScope]
  refine ⟨⟨h.tree, h.told, fun _ => ⟨?_, ?_, ha.labels, ha.ahead, hnext⟩⟩, Nat.le_refl _, hnext⟩
  · change run'.scopes.push (run'.lastScope + 1) = (run.scopes.push (run.lastScope + 1)).rename F.map
    rw [hnext, ha.scopes]
    rfl
  · intro fr hfr x hx
    rcases List.mem_cons.mp hfr with rfl | hfr
    · cases hx
    · exact ha.locals fr hfr x hx

theorem closeFrame_sim (h : run.Twin F true run') :
    Check.Sim F true run run' closeFrame closeFrame F.MadeNames := by
  have ha := h.around rfl
  rcases hframes : run.scopes with ⟨_ | ⟨frame, rest⟩⟩
  · have hclose : closeFrame run = ([], run) := by
      simp [closeFrame, modifyGet, MonadStateOf.modifyGet, StateT.modifyGet, hframes,
        ScopeStack.pop?, pure]
    have hclose' : closeFrame run' = ([], run') := by
      simp [closeFrame, modifyGet, MonadStateOf.modifyGet, StateT.modifyGet, ha.scopes, hframes,
        ScopeStack.pop?, pure, ScopeStack.rename]
    refine ⟨?_, ?_, ?_⟩
    · rw [hclose, hclose']
      exact h
    · rw [hclose]
    · rw [hclose, hclose']
      exact ⟨rfl, by simp⟩
  · have hclose : closeFrame run = (frame.locals, { run with scopes := ⟨rest⟩ }) := by
      simp [closeFrame, modifyGet, MonadStateOf.modifyGet, StateT.modifyGet, hframes,
        ScopeStack.pop?, pure]
    have hclose' : closeFrame run' = (frame.locals.map (fun x => (x.1, F.map x.2)),
        { run' with scopes := ScopeStack.rename F.map ⟨rest⟩ }) := by
      simp [closeFrame, modifyGet, MonadStateOf.modifyGet, StateT.modifyGet, ha.scopes, hframes,
        ScopeStack.pop?, pure, ScopeStack.rename]
    have hlocals : ∀ fr ∈ frame :: rest, ∀ x ∈ fr.locals, F.At run.tree.size x.2 := fun fr hfr =>
      ha.locals fr (hframes ▸ hfr)
    refine ⟨?_, ?_, ?_⟩
    · rw [hclose, hclose']
      exact ⟨h.tree, h.told, fun _ => { ha with
        scopes := rfl
        locals := fun fr hfr => hlocals fr (List.mem_cons_of_mem _ hfr) }⟩
    · rw [hclose]
    · rw [hclose, hclose']
      exact ⟨rfl, hlocals frame List.mem_cons_self⟩

theorem warnUnusedLocals_sim {locals : Names} (h : run.Twin F true run')
    (hl : ∀ x ∈ locals, F.own x.2) :
    Check.Sim F true run run' (warnUnusedLocals locals)
      (warnUnusedLocals (locals.map fun x => (x.1, F.map x.2))) fun _ _ _ => True := by
  refine .forM h fun x hx r r' hr _ => .tree ?_
  have hown := hl x hx
  have hunused : isUnusedLocal r'.tree (F.map x.2) = isUnusedLocal r.tree x.2 := by
    rw [isUnusedLocal, hr.tree.isDeadDeclaration hown, hr.tree.var? hown, Option.any_map,
      isUnusedLocal]
    exact congrArg (· && _) (congrArg (Option.any · _) (funext fun v => List.isEmpty_map))
  simp only [hunused, hr.tree.span hown]
  exact .ite Iff.rfl (fun _ => .warn hr _ _) fun _ => .pure hr trivial

theorem reportSegment_sim (henv : env.Twin F m env') (h : run.Twin F true run')
    {segment : DeadSegment} (hs : ∀ s ∈ segment.statements.head?, F.At run.tree.size s) :
    Check.Sim F true run run' (reportSegment env segment)
      (reportSegment env' (segment.rename F.map)) fun _ _ _ => True := by
  unfold reportSegment
  rw [henv.valueFunction?]
  have hwarn : ∀ reason, Check.Sim F true run run' (Check.warn (.deadCode reason) segment.span)
      (Check.warn (.deadCode reason) segment.span) fun _ _ _ => True := fun reason => .warn h _ _
  rcases env.valueFunction? with _ | name
  · exact hwarn segment.reason
  · simp only [DeadSegment.rename, List.head?_map]
    cases segment.reason with
    | afterReturn =>
      refine .bind (.optionForM h fun first hfirst => .markError h
        (hs first hfirst)) fun _ _ r r' hr _ _ => .fault hr _ _
    | _ => exact hwarn _

theorem closeScope_sim (henv : env.Twin F m env') (h : run.Twin F true run') (kind : ScopeKind)
    (span : Span) {tr tr' : Tracker} (htr : F.Tracks run.tree.size tr tr') :
    Check.Sim F true run run' (closeScope env kind span tr) (closeScope env' kind span tr') F.Made := by
  obtain ⟨rfl, hst, hjumps, hseg⟩ := htr
  unfold closeScope
  refine .bind (closeFrame_sim h) fun locals locals' r r' hr hle hlocals => ?_
  obtain ⟨rfl, hlocals⟩ := hlocals
  rw [henv.warnUnused]
  refine .when Iff.rfl hr (fun _ => warnUnusedLocals_sim hr fun x hx => (hlocals x hx).1)
    fun r₁ r₁' hr₁ hle₁ => ?_
  have hle₁ := Nat.le_trans hle hle₁
  rw [tr.segments_rename]
  refine .bind (.forM hr₁ fun seg hmem s s' hs hle => reportSegment_sim henv hs fun first hf => ?_)
    fun _ _ r₂ r₂' hr₂ hle₂ _ => ?_
  · obtain ⟨first', hmem', hhead⟩ := hseg.segments seg hmem
    obtain rfl : first' = first := Option.some.inj (hhead.symm.trans hf)
    exact (hst first' hmem').mono (Nat.le_trans hle₁ hle)
  · have hle₂ := Nat.le_trans hle₁ hle₂
    refine .alloc hr₂ (.scope _) span fun s hs => ?_
    rcases List.mem_append.mp hs with hs | hs
    · exact (hst s hs).mono hle₂
    · obtain ⟨j, hj, rfl⟩ := List.mem_map.mp hs
      exact (hjumps j hj).mono hle₂

theorem inScope_sim (henv : env.Twin F run.tree.size env') (h : run.Twin F true run')
    (kind : ScopeKind) (singleStatement : Bool) (span : Span)
    {fill fill' : Tracker → CheckBody Tracker}
    (hfill : ∀ r r' tr tr', r.Twin F true r' → run.tree.size ≤ r.tree.size →
      F.Tracks r.tree.size tr tr' → CheckBody.Sim F true r r' (fill tr) (fill' tr') F.Tracks) :
    CheckBody.Sim F true run run' (inScope env kind singleStatement span fill)
      (inScope env' kind singleStatement span fill') F.Made := by
  unfold inScope
  refine .bind (.lift (openScope_sim h)) fun scopeId scopeId' r r' hr hle hsame => ?_
  subst hsame
  refine .bind (hfill r r' _ _ hr hle ⟨rfl, by simp, by simp, .empty _ _⟩)
    fun tr tr' r₁ r₁' hr₁ _ htr => ?_
  exact .lift (closeScope_sim henv hr₁ kind span htr)

theorem appendStmt_sim (h : run.Twin F true run') {tr tr' : Tracker} {x x' : NodeId × Facts}
    (htr : F.Tracks run.tree.size tr tr') (hx : F.Settled run.tree.size x x') :
    CheckBody.Sim F true run run' (appendStmt tr x.1 x.2) (appendStmt tr' x'.1 x'.2) F.Tracks := by
  obtain ⟨rfl, hst, hjumps, hseg⟩ := htr
  obtain ⟨⟨hid, hat⟩, hfacts, hjump⟩ := hx
  intro tr₁ r tr₁' r' hrun hrun'
  rw [hid, hfacts] at hrun'
  obtain ⟨t₁, reach, happ, rfl⟩ := appendStmt_ok hrun
  obtain ⟨t₁', reach', happ', rfl⟩ := appendStmt_ok hrun'
  obtain ⟨htree, rfl⟩ := h.tree.append hat.1 (fun s hs => (hst s hs).1) happ happ'
  obtain ⟨hseg₁, -⟩ := segmented_append hseg happ
  have hsize : t₁.size = run.tree.size := by
    obtain ⟨s, c, -, -, -, rfl⟩ := Tree.append_ok happ
    exact Tree.size_place
  refine ⟨h.withTree htree (Nat.le_of_eq hsize.symm), Nat.le_of_eq hsize.symm, rfl, ?_, ?_, hseg₁⟩
  all_goals
    change ∀ _, _ → F.At t₁.size _
    rw [hsize]
    obtain ⟨s, c, -, hc, rfl, -⟩ := Tree.append_ok happ
    have hsame := Tracker.sameScope_classify tr x.1 (run.tree.span x.1) x.2.returns
      (run.tree.reachedByLiveJump x.1)
    rw [hc] at hsame
  · intro i (hi : i ∈ c.statements)
    rw [show c.statements = tr.statements ++ [x.1] from hsame.statements] at hi
    rcases List.mem_append.mp hi with hi | hi
    · exact hst i hi
    · exact List.mem_singleton.mp hi ▸ hat
  · intro j hj
    rcases List.mem_append.mp hj with hj | hj
    · exact hjumps j (hsame.constantJumps ▸ hj)
    · refine hjump j ?_
      rw [Facts.jumpOf] at hj
      split at hj
      · simp at hj
      · exact Option.mem_toList.mp hj

/-! ### Plain statements -/

theorem ScopeStack.define_rename (f : NodeId → NodeId) (scopes : ScopeStack) (name : String)
    (id : NodeId) :
    (scopes.rename f).define name (f id)
      = match scopes.define name id with
        | .error previous => .error (f previous)
        | .ok scopes => .ok (scopes.rename f) := by
  rcases scopes with ⟨_ | ⟨frame, rest⟩⟩
  · rfl
  · simp only [define, rename, List.map_cons, lookup_rename]
    cases frame.locals.lookup name <;> simp

theorem declareLocal_sim (henv : env.Twin F m env') (h : run.Twin F true run') {id : NodeId}
    (hid : F.At run.tree.size id) (name : String) (span : Span) :
    Check.Sim F true run run' (declareLocal env id name span)
      (declareLocal env' (F.map id) name span) fun _ _ _ => True := by
  have ha := h.around rfl
  unfold declareLocal
  refine .get ?_
  rw [henv.library, ha.scopes, ScopeStack.define_rename, henv.params, henv.globals]
  refine .ite Iff.rfl (fun _ => .faultAt h hid _ _) fun _ => ?_
  rcases hdef : run.scopes.define name id with previous | scopes
  · have hprevious : F.own previous := by
      rcases hframes : run.scopes with ⟨_ | ⟨frame, rest⟩⟩
      · simp [hframes, ScopeStack.define] at hdef
      · simp only [hframes, ScopeStack.define] at hdef
        rcases hfound : frame.locals.lookup name with _ | found
        · simp [hfound] at hdef
        · simp only [hfound, Except.error.injEq] at hdef
          subst hdef
          obtain ⟨l₁, l₂, hl, -⟩ := List.lookup_eq_some_iff.mp hfound
          exact (ha.locals frame (by simp [hframes]) (name, found) (by simp [hl])).1
    simp only [h.tree.span hprevious]
    exact .faultAt h hid _ _
  · have hscopes : Run.Twin F true { run with scopes }
        { run' with scopes := scopes.rename F.map } :=
      ⟨h.tree, h.told, fun _ => { ha with
        scopes := rfl
        locals := fun fr hfr x hx => by
          rcases (ScopeStack.define_ok hdef).2 fr hfr x hx with ⟨g, hg, hx⟩ | hx
          · exact ha.locals g hg x hx
          · exact hx ▸ hid }⟩
    simp only [Option.isSome_map]
    refine .set ?_ (Nat.le_refl _)
    refine .ite Iff.rfl (fun _ => .warn hscopes _ _) fun _ => ?_
    exact .ite Iff.rfl (fun _ => .warn hscopes _ _) fun _ => .pure hscopes trivial

theorem allocStmt_sim (h : run.Twin F true run') (kind : StmtKind) (span : Span)
    (hk : kind.isLabel = false) (hc : ∀ c ∈ kind.children, F.At run.tree.size c) :
    Check.Sim F true run run' (Check.allocStmt kind span) (Check.allocStmt (kind.rename F.map) span)
      F.Made := by
  refine .alloc h (.stmt { kind }) span ?_
  cases kind with
  | label => cases hk
  | _ => exact hc

theorem resolveDeclaration_sim (henv : env.Twin F m env') (h : run.Twin F true run')
    (scopeId : Nat) (singleStatement : Bool) (decl : VarDecl) (span : Span) :
    Check.Sim F true run run' (resolveDeclaration env scopeId singleStatement decl span)
      (resolveDeclaration env' scopeId singleStatement decl span) F.Made := by
  unfold resolveDeclaration
  refine .bind (resolveOption_sim henv h decl.init) fun init init' r r' hr _ hinit => ?_
  obtain ⟨rfl, hinit⟩ := hinit
  refine .bind (allocStmt_sim hr _ span rfl fun c hc => hinit c (Option.mem_toList.mp hc))
    fun id id' r₁ r₁' hr₁ hle₁ hid => ?_
  obtain ⟨rfl, hid⟩ := hid
  refine .when Iff.rfl hr₁ (fun _ => .faultAt hr₁ hid _ _) fun r₂ r₂' hr₂ hle₂ => ?_
  refine .bind (declareLocal_sim henv hr₂ (hid.mono hle₂) _ _) fun _ _ r₃ r₃' hr₃ hle₃ _ => ?_
  have hid₃ := hid.mono (Nat.le_trans hle₂ hle₃)
  refine .bind (.optionForM hr₃ fun x hx => checkInitializer_sim hr₃ hid₃ (hinit x hx).1 _ _)
    fun _ _ r₄ r₄' hr₄ hle₄ _ => ?_
  exact .pure hr₄ ⟨rfl, hid₃.mono hle₄⟩

theorem returnFault?_twin {t t' : Tree} (h : t.Twin F t') {body body' : Body}
    (hb : body'.frame = body.frame) {value : Option NodeId} (hv : ∀ v ∈ value, F.own v) :
    returnFault? t' body' (value.map F.map) = returnFault? t body value := by
  rcases body with ⟨name, returnType, isEvent, params, labels⟩
  rcases body' with ⟨name', returnType', isEvent', params', labels'⟩
  obtain ⟨rfl, rfl, rfl⟩ : name' = name ∧ returnType' = returnType ∧ isEvent' = isEvent := by
    simpa [Body.frame] using hb
  rcases value with _ | v
  · rfl
  · simp only [Option.map_some, returnFault?, h.untyped (hv v rfl), h.exprType (hv v rfl)]

theorem resolveReturn_sim (henv : env.Twin F m env') (h : run.Twin F true run')
    (value : Option Expr) (span : Span) :
    Check.Sim F true run run' (resolveReturn env value span) (resolveReturn env' value span)
      F.Made := by
  unfold resolveReturn
  refine .bind (resolveOption_sim henv h value) fun value value' r r' hr _ hvalue => ?_
  obtain ⟨rfl, hvalue⟩ := hvalue
  refine .bind (allocStmt_sim hr _ span rfl fun c hc => hvalue c (Option.mem_toList.mp hc))
    fun id id' r₁ r₁' hr₁ hle₁ hid => .tree ?_
  obtain ⟨rfl, hid⟩ := hid
  have hfault : env'.body.bind (returnFault? r₁'.tree · (value.map F.map))
      = env.body.bind (returnFault? r₁.tree · value) := by
    have hbody := henv.body
    rcases hb : env.body with _ | body <;> rcases hb' : env'.body with _ | body' <;>
      rw [hb, hb'] at hbody
    · rfl
    · cases hbody
    · cases hbody
    · exact returnFault?_twin hr₁.tree (Option.some.inj hbody) fun v hv => (hvalue v hv).1
  rw [hfault]
  exact .bind (.optionForMSame hr₁ fun kind _ => .faultAt hr₁ hid kind span)
    fun _ _ r₂ r₂' hr₂ hle₂ _ => .pure hr₂ ⟨rfl, hid.mono hle₂⟩

theorem jumpTarget?_twin (henv : env.Twin F m env') (h : run.Twin F true run') (name : String) :
    jumpTarget? env' run' name
      = (jumpTarget? env run name).map fun x => (F.map x.1, x.2.rename F.map) := by
  have ha := h.around rfl
  unfold jumpTarget?
  rw [henv.labels]
  rcases hlabel : env.label? name with _ | target
  · rfl
  · have htarget := (henv.label name target hlabel).1
    simp only [Option.map_some, Option.bind_eq_bind, Option.bind_some, h.tree.stmt? htarget]
    rcases run.tree.stmt? target with _ | s
    · rfl
    · have hopen : run'.scopes.isOpen s.info.scopeId = run.scopes.isOpen s.info.scopeId := by
        rw [ha.scopes, ScopeStack.isOpen, ScopeStack.rename, List.any_map, ScopeStack.isOpen]
        rfl
      simp only [Option.map_some, Option.bind_some, StmtNode.rename]
      change (if run'.scopes.isOpen s.info.scopeId = true then _ else _) = _
      rw [hopen]
      split <;> rfl

theorem resolveJump_sim (henv : env.Twin F run.tree.size env') (h : run.Twin F true run')
    (index : Nat) (name : String) (span : Span) :
    Check.Sim F true run run' (resolveJump env index name span) (resolveJump env' index name span)
      F.Settled := by
  unfold resolveJump
  refine .get ?_
  rw [jumpTarget?_twin henv h name]
  rcases htarget : jumpTarget? env run name with _ | ⟨label, info⟩
  · refine .bind (allocStmt_sim h (.jump name none false) span rfl
      (by simp [StmtKind.children])) fun id id' r r' hr _ hid => ?_
    obtain ⟨rfl, hid⟩ := hid
    exact .bind (.faultAt hr hid _ _) fun _ _ r₁ r₁' hr₁ hle _ =>
      .pure hr₁ (.plain ⟨rfl, hid.mono hle⟩ false)
  · have hlabel : F.At run.tree.size label := by
      obtain ⟨l, hl, s, hs, hx⟩ : ∃ l, env.label? name = some l ∧ ∃ s, run.tree.stmt? l = some s
          ∧ (if run.scopes.isOpen s.info.scopeId = true then some (l, s.info) else none)
            = some (label, info) := by
        simpa [jumpTarget?, Option.bind_eq_some_iff] using htarget
      split at hx
      · obtain ⟨rfl, -⟩ := Prod.mk.inj (Option.some.inj hx)
        exact henv.label name _ hl
      · cases hx
    refine .bind (allocStmt_sim h (.jump name (some label) false) span rfl
      (by simp [StmtKind.children])) fun id id' r r' hr hle hid => ?_
    obtain ⟨rfl, hid⟩ := hid
    refine .bind (.modifyTree hr (hr.tree.addJump hlabel.1 hid) (Tree.size_modify _))
      fun _ _ r₁ r₁' hr₁ hle₁ _ => .pure hr₁ ⟨⟨rfl, hid.mono hle₁⟩, ?_, ?_⟩
    · by_cases hdead : info.dead.isDead = true <;>
        simp [Facts.rename, StmtInfo.rename, ConstantJump.rename, hdead]
    · intro j hj
      simp only [Option.mem_def] at hj
      split at hj
      · cases hj
      · obtain rfl := Option.some.inj hj
        exact hlabel.mono (Nat.le_trans hle hle₁)

theorem takeLabel_sim (h : run.Twin F true run') (name : String) (span : Span) :
    CheckBody.Sim F true run run' (takeLabel name span) (takeLabel name span) F.Made := by
  have ha := h.around rfl
  unfold takeLabel
  refine .get ?_
  rw [ha.labels]
  rcases hlabels : run.labels with _ | ⟨id, rest⟩
  · exact .throwing
  · have hahead : ∀ l ∈ id :: rest, F.At run.tree.size l := hlabels ▸ ha.ahead
    have hid := hahead id List.mem_cons_self
    have hnext : Run.Twin F true { run with labels := rest }
        { run' with labels := rest.map F.map } :=
      ⟨h.tree, h.told, fun _ => { ha with
        labels := rfl
        ahead := fun l hl => hahead l (List.mem_cons_of_mem _ hl) }⟩
    simp only [List.map_cons]
    refine .set ?_ (Nat.le_refl _)
    rw [h.tree.stmt? hid.1]
    rcases run.tree.stmt? id with _ | ⟨kind, info⟩
    · exact .throwing
    · cases kind with
      | label found jumps => exact .ite Iff.rfl (fun _ => .pure hnext ⟨rfl, hid⟩) fun _ => .throwing
      | _ => exact .throwing

theorem resolveStateChange_sim (henv : env.Twin F m env') (h : run.Twin F true run')
    (target : String) (span : Span) :
    Check.Sim F true run run' (resolveStateChange env target span)
      (resolveStateChange env' target span) F.Made := by
  unfold resolveStateChange
  rw [henv.states]
  simp only [Option.isNone_map]
  refine .bind (allocStmt_sim h (.stateChange target _) span rfl
    (by simp [StmtKind.children])) fun id id' r r' hr _ hid => ?_
  obtain ⟨rfl, hid⟩ := hid
  exact .when Iff.rfl hr (fun _ => .faultAt hr hid _ _) fun r₁ r₁' hr₁ hle =>
    .pure hr₁ ⟨rfl, hid.mono hle⟩

/-! ### Compound statements -/

/-- Scopes that both runs made. -/
def Pairing.MadeScope (F : Pairing) (n : Nat) (c c' : CodeScope) : Prop :=
  c' = c.rename F.map ∧ ∀ j ∈ c.constantJumps, F.At n j.label

theorem Tree.Twin.at_jumps {t t' : Tree} (h : t.Twin F t') {id : Nat} {c : CodeScope} (hid : F.own id)
    (hc : t.scope? id = some c) : ∀ j ∈ c.constantJumps, F.At t.size j.label := fun _ hj =>
  h.inner id _ hid (Tree.scope?_eq_some.mp hc) _
    (List.mem_append_right _ (List.mem_map.mpr ⟨_, hj, rfl⟩))

theorem getScope_sim (h : run.Twin F true run') {id : NodeId} (hid : F.own id) :
    CheckBody.Sim F true run run' (getScope id) (getScope (F.map id)) F.MadeScope := by
  intro c r c' r' hx hx'
  obtain ⟨hc, rfl⟩ := getScope_ok hx
  obtain ⟨hc', rfl⟩ := getScope_ok hx'
  rw [h.tree.scope? hid, hc] at hc'
  exact ⟨h, Nat.le_refl _, (Option.some.inj hc').symm, h.tree.at_jumps hid hc⟩

theorem getScopes_sim (h : run.Twin F true run') {ids : List NodeId} (hids : ∀ i ∈ ids, F.own i) :
    CheckBody.Sim F true run run' (ids.mapM getScope) ((ids.map F.map).mapM getScope)
      fun n cs cs' => cs' = cs.map (·.rename F.map)
        ∧ ∀ c ∈ cs, ∀ j ∈ c.constantJumps, F.At n j.label := by
  intro cs r cs' r' hx hx'
  obtain ⟨rfl, rfl⟩ := mapM_getScope_ok hx
  obtain ⟨rfl, rfl⟩ := mapM_getScope_ok hx'
  refine ⟨h, Nat.le_refl _, ?_, fun c hc => ?_⟩
  · rw [List.filterMap_map, List.map_filterMap]
    exact List.filterMap_congr fun i hi => h.tree.scope? (hids i hi)
  · obtain ⟨i, hi, hc⟩ := List.mem_filterMap.mp hc
    exact h.tree.at_jumps (hids i hi) hc

theorem finishBlock_sim (h : run.Twin F true run') (index : Nat) {scope : NodeId}
    (hs : F.At run.tree.size scope) (span : Span) :
    CheckBody.Sim F true run run' (finishBlock index scope span)
      (finishBlock index (F.map scope) span) F.Settled := by
  unfold finishBlock
  refine .bind (.lift (allocStmt_sim h (.block scope) span rfl
    (by simpa [StmtKind.children] using hs))) fun id id' r r' hr _ hid => ?_
  obtain ⟨rfl, hid⟩ := hid
  refine .bind (getScope_sim hr hs.1) fun c c' r₁ r₁' hr₁ hle hc => ?_
  obtain ⟨rfl, hjumps⟩ := hc
  refine .pure hr₁ ⟨⟨rfl, hid.mono hle⟩, blockFacts_rename F.map c id index, fun j hj => ?_⟩
  obtain ⟨j', hj', rfl⟩ := Option.map_eq_some_iff.mp hj
  exact hjumps j' (List.mem_of_find?_eq_some hj')

/-- The arms of a branch that both runs made. -/
def Pairing.MadeArms (F : Pairing) (n : Nat) (arms arms' : List (NodeId × NodeId)) : Prop :=
  arms' = arms.map (fun x => (F.map x.1, F.map x.2)) ∧ ∀ x ∈ arms, F.At n x.1 ∧ F.At n x.2

theorem Pairing.MadeArms.mono {arms arms' : List (NodeId × NodeId)} (h : F.MadeArms m arms arms')
    (hle : m ≤ n) : F.MadeArms n arms arms' :=
  ⟨h.1, fun x hx => ⟨(h.2 x hx).1.mono hle, (h.2 x hx).2.mono hle⟩⟩

theorem finishBranch_sim (h : run.Twin F true run') (index : Nat) {cond thenScope : NodeId}
    {elseIfs elseIfs' : List (NodeId × NodeId)} {elseScope elseScope' : Option NodeId}
    (hcond : F.At run.tree.size cond) (hthen : F.At run.tree.size thenScope)
    (harms : F.MadeArms run.tree.size elseIfs elseIfs')
    (helse : F.MadeOption run.tree.size elseScope elseScope') (span : Span) :
    CheckBody.Sim F true run run' (finishBranch index cond thenScope elseIfs elseScope span)
      (finishBranch index (F.map cond) (F.map thenScope) elseIfs' elseScope' span) F.Settled := by
  obtain ⟨rfl, harms⟩ := harms
  obtain ⟨rfl, helse⟩ := helse
  have hparts : ∀ c ∈ (StmtKind.branch cond thenScope elseIfs elseScope).children,
      F.At run.tree.size c := by
    intro c hc
    simp only [StmtKind.children, List.cons_append, List.mem_cons, List.mem_append,
      List.mem_flatMap, List.not_mem_nil, or_false, Option.mem_toList] at hc
    rcases hc with rfl | rfl | ⟨x, hx, rfl | rfl⟩ | hc
    · exact hcond
    · exact hthen
    · exact (harms x hx).1
    · exact (harms x hx).2
    · exact helse c hc
  unfold finishBranch
  refine .bind (.lift (allocStmt_sim h (.branch cond thenScope elseIfs elseScope) span rfl
    hparts)) fun id id' r r' hr _ hid => ?_
  obtain ⟨rfl, hid⟩ := hid
  rcases elseScope with _ | last
  · exact .pure hr (.plain ⟨rfl, hid⟩ false)
  · simp only [Option.map_some]
    refine .bind (getScope_sim hr hthen.1) fun first first' r₁ r₁' hr₁ hle₁ hfirst => ?_
    obtain ⟨rfl, hfirst⟩ := hfirst
    have hids : (elseIfs.map fun x => (F.map x.1, F.map x.2)).map (·.2) ++ [F.map last]
        = (elseIfs.map (·.2) ++ [last]).map F.map := by simp
    rw [hids]
    refine .bind (getScopes_sim hr₁ fun i hi => ?_) fun others others' r₂ r₂' hr₂ hle₂ hothers => ?_
    · rcases List.mem_append.mp hi with hi | hi
      · obtain ⟨x, hx, rfl⟩ := List.mem_map.mp hi
        exact (harms x hx).2.1
      · exact List.mem_singleton.mp hi ▸ (helse last rfl).1
    · obtain ⟨rfl, hothers⟩ := hothers
      have hjumps : ∀ c ∈ first :: others, ∀ j ∈ c.constantJumps, F.At r₂.tree.size j.label := by
        intro c hc j hj
        rcases List.mem_cons.mp hc with rfl | hc
        · exact (hfirst j hj).mono hle₂
        · exact hothers c hc j hj
      refine .pure hr₂ ⟨⟨rfl, hid.mono (Nat.le_trans hle₁ hle₂)⟩, branchFacts_rename F.map first
        others id index fun s hs j hj s' hs' j' hj' heq =>
          Pairing.own_inj (hjumps s hs j hj).1 (hjumps s' hs' j' hj').1 heq, fun j hj => ?_⟩
      obtain ⟨j', hj', rfl⟩ := Option.map_eq_some_iff.mp hj
      exact hjumps first List.mem_cons_self j' (List.mem_of_find?_eq_some hj')

/-! ### Statements -/

section

variable (F : Pairing) (env env' : Env)

/-- Both runs resolve the statements of a scope alike. -/
def SimStmts (stmts : List Stmt) : Prop :=
  ∀ {run run' : Run} {tr tr' : Tracker}, env.Twin F run.tree.size env' → run.Twin F true run' →
    F.Tracks run.tree.size tr tr' → CheckBody.Sim F true run run' (resolveStmts env stmts tr)
      (resolveStmts env' stmts tr') F.Tracks

def SimStmt (s : Stmt) : Prop :=
  ∀ {run run' : Run} (scopeId index : Nat), env.Twin F run.tree.size env' → run.Twin F true run' →
    CheckBody.Sim F true run run' (resolveStmt env scopeId index s)
      (resolveStmt env' scopeId index s) F.Settled

def SimPlain (stmt : PlainStmt) : Prop :=
  ∀ {run run' : Run} (scopeId index : Nat) (singleStatement : Bool),
    env.Twin F run.tree.size env' → run.Twin F true run' →
      CheckBody.Sim F true run run' (resolvePlain env scopeId index singleStatement stmt)
        (resolvePlain env' scopeId index singleStatement stmt) F.Settled

def SimBody (body : Stmt) : Prop :=
  ∀ {run run' : Run} (kind : ScopeKind), env.Twin F run.tree.size env' → run.Twin F true run' →
    CheckBody.Sim F true run run' (resolveBody env kind body) (resolveBody env' kind body) F.Made

def SimElseIfs (elseIfs : List ElseIf) : Prop :=
  ∀ {run run' : Run}, env.Twin F run.tree.size env' → run.Twin F true run' →
    CheckBody.Sim F true run run' (resolveElseIfs env elseIfs) (resolveElseIfs env' elseIfs)
      F.MadeArms

def SimElse (body : Option Stmt) : Prop :=
  ∀ {run run' : Run}, env.Twin F run.tree.size env' → run.Twin F true run' →
    CheckBody.Sim F true run run' (resolveElse env body) (resolveElse env' body) F.MadeOption

end

theorem simStmts_nil : SimStmts F env env' [] := by
  intro run run' tr tr' henv h htr
  unfold resolveStmts
  exact .pure h htr

theorem simStmts_cons {s : Stmt} {rest : List Stmt} (hs : SimStmt F env env' s)
    (hrest : SimStmts F env env' rest) : SimStmts F env env' (s :: rest) := by
  intro run run' tr tr' henv h htr
  unfold resolveStmts
  have hindex : tr'.nextIndex = tr.nextIndex := by rw [htr.same, Tracker.nextIndex_rename]
  rw [show tr'.scopeId = tr.scopeId by rw [htr.same]; rfl, hindex]
  refine .bind (hs tr.scopeId tr.nextIndex henv h) fun x x' r r' hr hle hx => ?_
  refine .bind (appendStmt_sim hr (htr.mono hle) hx) fun tr₁ tr₁' r₁ r₁' hr₁ hle₁ htr₁ => ?_
  exact hrest (henv.mono (Nat.le_trans hle hle₁)) hr₁ htr₁

theorem simStmt_block {stmts : List Stmt} (hs : SimStmts F env env' stmts) (inner span : Span) :
    SimStmt F env env' (.block (.mk stmts inner) span) := by
  intro run run' scopeId index henv h
  unfold resolveStmt
  refine .bind (inScope_sim henv h _ _ _ fun r r' tr tr' hr hle htr => hs (henv.mono hle) hr htr)
    fun scope scope' r r' hr _ hscope => ?_
  obtain ⟨rfl, hscope⟩ := hscope
  exact finishBlock_sim hr index hscope span

theorem simStmt_plain {stmt : PlainStmt} (hs : SimPlain F env env' stmt) :
    SimStmt F env env' (.plain stmt) := by
  intro run run' scopeId index henv h
  unfold resolveStmt
  exact hs scopeId index false henv h

theorem simPlain_empty (span : Span) : SimPlain F env env' (.empty span) := by
  intro run run' scopeId index singleStatement henv h
  unfold resolvePlain
  refine .when Iff.rfl h (fun _ => .warn h _ _) fun r r' hr _ => ?_
  exact .bind (.lift (allocStmt_sim hr .empty span rfl (by simp [StmtKind.children])))
    fun id id' r₁ r₁' hr₁ _ hid => .pure hr₁ (.plain hid false)

theorem simPlain_expr (e : Expr) (span : Span) : SimPlain F env env' (.expr e span) := by
  intro run run' scopeId index singleStatement henv h
  unfold resolvePlain
  refine .bind (.lift (resolveExpr_sim henv h e)) fun value value' r r' hr _ hv => ?_
  obtain ⟨rfl, hv⟩ := hv
  refine .when Iff.rfl hr (fun _ => .warn hr _ _) fun r₁ r₁' hr₁ hle => ?_
  exact .bind (.lift (allocStmt_sim hr₁ (.expr value) span rfl fun c hc =>
    List.mem_singleton.mp hc ▸ hv.mono hle)) fun id id' r₂ r₂' hr₂ _ hid =>
      .pure hr₂ (.plain hid false)

theorem simPlain_declare (decl : VarDecl) (span : Span) :
    SimPlain F env env' (.declare decl span) := by
  intro run run' scopeId index singleStatement henv h
  unfold resolvePlain
  exact .bind (.lift (resolveDeclaration_sim henv h scopeId singleStatement decl span))
    fun id id' r r' hr _ hid => .pure hr (.plain hid false)

theorem simPlain_ret (value : Option Expr) (span : Span) :
    SimPlain F env env' (.ret value span) := by
  intro run run' scopeId index singleStatement henv h
  unfold resolvePlain
  exact .bind (.lift (resolveReturn_sim henv h value span))
    fun id id' r r' hr _ hid => .pure hr (.plain hid true)

theorem simPlain_jump (name : String) (span : Span) : SimPlain F env env' (.jump name span) := by
  intro run run' scopeId index singleStatement henv h
  unfold resolvePlain
  exact .lift (resolveJump_sim henv h index name span)

theorem simPlain_label (name : String) (span : Span) : SimPlain F env env' (.label name span) := by
  intro run run' scopeId index singleStatement henv h
  unfold resolvePlain
  exact .bind (takeLabel_sim h name span) fun id id' r r' hr _ hid => .pure hr (.plain hid false)

theorem simPlain_stateChange (target : String) (span : Span) :
    SimPlain F env env' (.stateChange target span) := by
  intro run run' scopeId index singleStatement henv h
  unfold resolvePlain
  exact .bind (.lift (resolveStateChange_sim henv h target span))
    fun id id' r r' hr _ hid => .pure hr (.plain hid false)

theorem simPlain_branch (cond : Expr) {first : Stmt} {elseIfs : List ElseIf} {last : Option Stmt}
    (hfirst : SimBody F env env' first) (hothers : SimElseIfs F env env' elseIfs)
    (helse : SimElse F env env' last) (span : Span) :
    SimPlain F env env' (.branch cond first elseIfs last span) := by
  intro run run' scopeId index singleStatement henv h
  unfold resolvePlain
  refine .bind (.lift (resolveCondition_sim henv h cond)) fun cond cond' r r' hr hle hcond => ?_
  obtain ⟨rfl, hcond⟩ := hcond
  refine .bind (hfirst .ifBranch (henv.mono hle) hr) fun body body' r₁ r₁' hr₁ hle₁ hbody => ?_
  obtain ⟨rfl, hbody⟩ := hbody
  have hle₁' := Nat.le_trans hle hle₁
  refine .bind (hothers (henv.mono hle₁') hr₁) fun arms arms' r₂ r₂' hr₂ hle₂ harms => ?_
  have hle₂' := Nat.le_trans hle₁' hle₂
  refine .bind (helse (henv.mono hle₂') hr₂) fun last last' r₃ r₃' hr₃ hle₃ hlast => ?_
  exact finishBranch_sim hr₃ index (hcond.mono (Nat.le_trans hle₁ (Nat.le_trans hle₂ hle₃)))
    (hbody.mono (Nat.le_trans hle₂ hle₃)) (harms.mono hle₃) hlast span

theorem simPlain_whileLoop (cond : Expr) {body : Stmt} (hbody : SimBody F env env' body)
    (span : Span) : SimPlain F env env' (.whileLoop cond body span) := by
  intro run run' scopeId index singleStatement henv h
  unfold resolvePlain
  refine .bind (.lift (resolveCondition_sim henv h cond)) fun cond cond' r r' hr hle hcond => ?_
  obtain ⟨rfl, hcond⟩ := hcond
  refine .bind (hbody .whileBody (henv.mono hle) hr) fun body body' r₁ r₁' hr₁ hle₁ hbody => ?_
  obtain ⟨rfl, hbody⟩ := hbody
  refine .bind (.lift (allocStmt_sim hr₁ (.whileLoop cond body) span rfl ?_))
    fun id id' r₂ r₂' hr₂ _ hid => .pure hr₂ (.plain hid false)
  simp only [StmtKind.children, List.forall_mem_cons]
  exact ⟨hcond.mono hle₁, hbody, by simp⟩

theorem simPlain_doWhile {body : Stmt} (hbody : SimBody F env env' body) (cond : Expr)
    (span : Span) : SimPlain F env env' (.doWhile body cond span) := by
  intro run run' scopeId index singleStatement henv h
  unfold resolvePlain
  refine .bind (hbody .doWhileBody henv h) fun body body' r r' hr hle hbody => ?_
  obtain ⟨rfl, hbody⟩ := hbody
  refine .bind (.lift (resolveCondition_sim (henv.mono hle) hr cond))
    fun cond cond' r₁ r₁' hr₁ hle₁ hcond => ?_
  obtain ⟨rfl, hcond⟩ := hcond
  refine .bind (.lift (allocStmt_sim hr₁ (.doWhile body cond) span rfl ?_))
    fun id id' r₂ r₂' hr₂ _ hid => .pure hr₂ (.plain hid false)
  simp only [StmtKind.children, List.forall_mem_cons]
  exact ⟨hbody.mono hle₁, hcond, by simp⟩

/-- What follows the condition of a `for` loop, which may be missing. -/
theorem finishFor_sim {body : Stmt} (hbody : SimBody F env env' body)
    (henv : env.Twin F run.tree.size env') (h : run.Twin F true run') {init : List NodeId}
    {cond cond' : Option NodeId} (hinit : ∀ i ∈ init, F.At run.tree.size i)
    (hcond : F.MadeOption run.tree.size cond cond') (step : List Expr) (span : Span) :
    CheckBody.Sim F true run run'
      (do
        let step ← resolveExprs env step
        let body ← resolveBody env .forBody body
        return (← Check.allocStmt (.forLoop init cond step body) span, {}))
      (do
        let step ← resolveExprs env' step
        let body ← resolveBody env' .forBody body
        return (← Check.allocStmt (.forLoop (init.map F.map) cond' step body) span, {}))
      F.Settled := by
  obtain ⟨rfl, hcond⟩ := hcond
  refine .bind (.lift (resolveExprs_sim henv h step)) fun step step' r r' hr hle hstep => ?_
  obtain ⟨rfl, hstep⟩ := hstep
  refine .bind (hbody .forBody (henv.mono hle) hr) fun body body' r₁ r₁' hr₁ hle₁ hbody => ?_
  obtain ⟨rfl, hbody⟩ := hbody
  refine .bind (.lift (allocStmt_sim hr₁ (.forLoop init cond step body) span rfl ?_))
    fun id id' r₂ r₂' hr₂ _ hid => .pure hr₂ (.plain hid false)
  have hle' := Nat.le_trans hle hle₁
  simp only [StmtKind.children, List.mem_append, List.mem_singleton, Option.mem_toList]
  rintro c (((hc | hc) | hc) | rfl)
  · exact (hinit c hc).mono hle'
  · exact (hcond c hc).mono hle'
  · exact (hstep c hc).mono hle₁
  · exact hbody

theorem simPlain_forLoop (init : List Expr) (cond : Option Expr) (step : List Expr) {body : Stmt}
    (hbody : SimBody F env env' body) (span : Span) :
    SimPlain F env env' (.forLoop init cond step body span) := by
  intro run run' scopeId index singleStatement henv h
  unfold resolvePlain
  refine .bind (.lift (resolveExprs_sim henv h init)) fun init init' r r' hr hle hinit => ?_
  obtain ⟨rfl, hinit⟩ := hinit
  have hend : ∀ (cond cond' : Option NodeId) (r₁ r₁' : Run), r₁.Twin F true r₁' →
      r.tree.size ≤ r₁.tree.size → F.MadeOption r₁.tree.size cond cond' → _ :=
    fun cond cond' r₁ r₁' hr₁ hle₁ hcond =>
      finishFor_sim hbody (henv.mono (Nat.le_trans hle hle₁)) hr₁ (fun i hi => (hinit i hi).mono hle₁)
        hcond step span
  cases cond with
  | none => exact .bind (.pure hr ⟨rfl, by simp⟩) hend
  | some cond =>
    refine .bind (.map (.lift (resolveCondition_sim (henv.mono hle) hr cond))
      fun n id id' hid => ?_) hend
    obtain ⟨rfl, hid⟩ := hid
    exact ⟨rfl, by simpa using hid⟩

theorem simBody_braced {stmts : List Stmt} (hs : SimStmts F env env' stmts) (inner span : Span) :
    SimBody F env env' (.block (.mk stmts inner) span) := by
  intro run run' kind henv h
  unfold resolveBody
  exact inScope_sim henv h _ _ _ fun r r' tr tr' hr hle htr => hs (henv.mono hle) hr htr

theorem simBody_plain {stmt : PlainStmt} (hs : SimPlain F env env' stmt) :
    SimBody F env env' (.plain stmt) := by
  intro run run' kind henv h
  unfold resolveBody
  refine inScope_sim henv h _ _ _ fun r r' tr tr' hr hle htr => ?_
  rw [show tr'.scopeId = tr.scopeId by rw [htr.same]; rfl]
  exact .bind (hs tr.scopeId 0 true (henv.mono hle) hr)
    fun x x' r₁ r₁' hr₁ hle₁ hx => appendStmt_sim hr₁ (htr.mono hle₁) hx

theorem simElseIfs_nil : SimElseIfs F env env' [] := by
  intro run run' henv h
  unfold resolveElseIfs
  exact .pure h ⟨rfl, by simp⟩

theorem simElseIfs_cons (cond : Expr) {body : Stmt} (hbody : SimBody F env env' body) (span : Span)
    {rest : List ElseIf} (hrest : SimElseIfs F env env' rest) :
    SimElseIfs F env env' (.mk cond body span :: rest) := by
  intro run run' henv h
  unfold resolveElseIfs
  refine .bind (.lift (resolveCondition_sim henv h cond)) fun cond cond' r r' hr hle hcond => ?_
  obtain ⟨rfl, hcond⟩ := hcond
  refine .bind (hbody .elseIfBranch (henv.mono hle) hr) fun body body' r₁ r₁' hr₁ hle₁ hbody => ?_
  obtain ⟨rfl, hbody⟩ := hbody
  refine .bind (hrest (henv.mono (Nat.le_trans hle hle₁)) hr₁)
    fun arms arms' r₂ r₂' hr₂ hle₂ harms => ?_
  obtain ⟨rfl, harms⟩ := harms
  refine .pure hr₂ ⟨rfl, ?_⟩
  simp only [List.forall_mem_cons]
  exact ⟨⟨hcond.mono (Nat.le_trans hle₁ hle₂), hbody.mono hle₂⟩, harms⟩

theorem simElse_none : SimElse F env env' none := by
  intro run run' henv h
  unfold resolveElse
  exact .pure h ⟨rfl, by simp⟩

theorem simElse_some {body : Stmt} (hbody : SimBody F env env' body) :
    SimElse F env env' (some body) := by
  intro run run' henv h
  unfold resolveElse
  refine .map (hbody .elseBranch henv h) fun n id id' hid => ?_
  obtain ⟨rfl, hid⟩ := hid
  exact ⟨rfl, by simpa using hid⟩

mutual

/-- **Both runs resolve the statements of a scope alike.** -/
theorem resolveStmts_sim : (stmts : List Stmt) → SimStmts F env env' stmts
  | [] => simStmts_nil
  | s :: rest => simStmts_cons (resolveStmt_sim s) (resolveStmts_sim rest)

theorem resolveStmt_sim : (s : Stmt) → SimStmt F env env' s
  | .block (.mk stmts inner) span => simStmt_block (resolveStmts_sim stmts) inner span
  | .plain stmt => simStmt_plain (resolvePlain_sim stmt)

theorem resolvePlain_sim : (stmt : PlainStmt) → SimPlain F env env' stmt
  | .empty span => simPlain_empty span
  | .expr e span => simPlain_expr e span
  | .declare decl span => simPlain_declare decl span
  | .ret value span => simPlain_ret value span
  | .jump name span => simPlain_jump name span
  | .label name span => simPlain_label name span
  | .stateChange target span => simPlain_stateChange target span
  | .branch cond first elseIfs last span =>
    simPlain_branch cond (resolveBody_sim first) (resolveElseIfs_sim elseIfs)
      (resolveElse_sim last) span
  | .whileLoop cond body span => simPlain_whileLoop cond (resolveBody_sim body) span
  | .doWhile body cond span => simPlain_doWhile (resolveBody_sim body) cond span
  | .forLoop init cond step body span =>
    simPlain_forLoop init cond step (resolveBody_sim body) span

theorem resolveBody_sim : (body : Stmt) → SimBody F env env' body
  | .block (.mk stmts inner) span => simBody_braced (resolveStmts_sim stmts) inner span
  | .plain stmt => simBody_plain (resolvePlain_sim stmt)

theorem resolveElseIfs_sim : (elseIfs : List ElseIf) → SimElseIfs F env env' elseIfs
  | [] => simElseIfs_nil
  | .mk cond body span :: rest =>
    simElseIfs_cons cond (resolveBody_sim body) span (resolveElseIfs_sim rest)

theorem resolveElse_sim : (body : Option Stmt) → SimElse F env env' body
  | none => simElse_none
  | some body => simElse_some (resolveBody_sim body)

end

end Lsl
