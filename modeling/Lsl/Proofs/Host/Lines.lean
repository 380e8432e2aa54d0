/- # Where code stands in the output

The lines of a block lie between those of the statement it belongs to, one level
deeper. So each statement has a place in the lines of the code that it is a part
of, and what is declared before it, in its block or in a block around it, is
declared by a line above that is in a block which is still open.

A place of control has a place in the lines too: behind the lines of what has run
of each block around it.

Key definitions: `OutputLine.Within`, `DeclaredAbove`, `Cursor.Stands`, `HostPoint.CallsIn`.
Key theorems: `HostStmt.layout_split`, `HostStmt.spots_written`, `Cursor.Nested.stands`,
`HostPoint.Checks.callsIn`.
-/
import Lsl.Proofs.Host.Flow
import Lsl.Proofs.Host.Rendering

namespace Lsl

variable {call : String} {depth : Nat}

/-! ### Blocks in the lines of a statement -/

/-- The line is at this depth or deeper. -/
def OutputLine.Within (depth : Nat) : OutputLine → Prop
  | code d _ => depth ≤ d
  | gap => True

theorem OutputLine.Within.mono {line : OutputLine} {d : Nat} (h : line.Within depth) (hd : d ≤ depth) :
    line.Within d := by
  cases line with
  | code d' text => exact Nat.le_trans hd h
  | gap => trivial

namespace HostStmt

theorem layoutAll_append (code rest : List HostStmt) : layoutAll call depth (code ++ rest)
    = layoutAll call depth code ++ layoutAll call depth rest := by
  induction code with
  | nil => rfl
  | cons s code ih => rw [List.cons_append, layoutAll, layoutAll, ih, List.append_assoc]

theorem mem_braced {line : OutputLine} {lines : List OutputLine} (h : line ∈ braced depth lines) :
    (∃ text, line = .code depth text) ∨ line ∈ lines := by
  rcases List.mem_append.mp h with h | h
  · rcases List.mem_cons.mp h with rfl | h
    · exact .inl ⟨_, rfl⟩
    · exact .inr h
  · obtain rfl := List.mem_singleton.mp h
    exact .inl ⟨_, rfl⟩

/-- The lines of a statement are its own, or those of a block in it. -/
theorem mem_layout {s : HostStmt} {line : OutputLine} (h : line ∈ s.layout call depth) :
    (∃ text, line = .code depth text)
      ∨ ∃ body ∈ s.bodies, line ∈ layoutAll call (depth + 1) body := by
  have headed : ∀ {text body}, body ∈ s.bodies →
      line ∈ .code depth text :: braced depth (layoutAll call (depth + 1) body) →
      (∃ text, line = .code depth text)
        ∨ ∃ body ∈ s.bodies, line ∈ layoutAll call (depth + 1) body := by
    intro text body hbody hline
    rcases List.mem_cons.mp hline with rfl | hline
    · exact .inl ⟨_, rfl⟩
    · exact (mem_braced hline).imp_right fun hin => ⟨body, hbody, hin⟩
  cases s with
  | checkpoint | eval | declare | goto | changeState =>
    exact .inl ⟨_, List.mem_singleton.mp h⟩
  | ret value =>
    cases value <;> exact .inl ⟨_, List.mem_singleton.mp h⟩
  | label name checkpoint =>
    cases checkpoint <;> exact .inl ⟨_, List.mem_singleton.mp h⟩
  | branch cond body arms otherwise =>
    rw [layout, layoutArms_eq] at h
    rcases List.mem_append.mp h with h | h
    · rcases List.mem_append.mp h with h | h
      · exact headed (by simp [bodies]) h
      · obtain ⟨arm, harm, h⟩ := List.mem_flatMap.mp h
        have hbody : arm.body ∈ (branch cond body arms otherwise).bodies :=
          List.mem_append_left _ (List.mem_cons_of_mem _ (List.mem_map_of_mem harm))
        exact headed hbody h
    · cases otherwise with
      | none => cases h
      | some last => exact headed (by simp [bodies]) h
  | whileLoop cond body => exact headed List.mem_cons_self h
  | doWhile body cond =>
    rcases List.mem_append.mp h with h | h
    · exact headed List.mem_cons_self h
    · exact .inl ⟨_, List.mem_singleton.mp h⟩
  | forLoop init cond step body => exact headed List.mem_cons_self h
  | block body => exact (mem_braced h).imp_right fun hin => ⟨body, List.mem_cons_self, hin⟩

/-- The lines of code are not above its depth. -/
theorem layoutAll_within {code : List HostStmt} :
    ∀ line ∈ layoutAll call depth code, line.Within depth := by
  induction code using code_induction generalizing depth with
  | nil => simp [layoutAll]
  | cons s rest ihin ihrest =>
    intro line hline
    rcases List.mem_append.mp hline with hline | hline
    · rcases mem_layout hline with ⟨text, rfl⟩ | ⟨body, hbody, hline⟩
      · exact Nat.le_refl depth
      · exact (ihin body hbody line hline).mono (Nat.le_succ depth)
    · exact ihrest line hline

theorem layout_within {s : HostStmt} : ∀ line ∈ s.layout call depth, line.Within depth := by
  have h := @layoutAll_within call depth [s]
  rwa [layoutAll, layoutAll, List.append_nil] at h

/-- **The lines of a block stand between those of its statement.** -/
theorem layout_split {s : HostStmt} {body : List HostStmt} (h : body ∈ s.bodies) :
    ∃ before behind, s.layout call depth = before ++ layoutAll call (depth + 1) body ++ behind := by
  have headed : ∀ (head : String) (rest : List OutputLine),
      ∃ before behind, .code depth head :: braced depth (layoutAll call (depth + 1) body) ++ rest
        = before ++ layoutAll call (depth + 1) body ++ behind := fun head rest =>
    ⟨[.code depth head, .code depth "\x7b"], .code depth "\x7d" :: rest, by simp [braced]⟩
  cases s with
  | branch cond first arms otherwise =>
    simp only [bodies, List.cons_append, List.mem_cons, List.mem_append, List.mem_map,
      Option.mem_toList] at h
    rcases h with rfl | ⟨arm, harm, rfl⟩ | rfl
    · rw [layout, List.append_assoc]
      exact headed _ _
    · obtain ⟨arms₁, arms₂, rfl⟩ := List.append_of_mem harm
      obtain ⟨before, behind, hsplit⟩ := headed ("else if(" ++ arm.cond.render ++ ")")
        (HostArm.layoutAll call depth arms₂ ++ layoutElse call depth otherwise)
      refine ⟨.code depth ("if(" ++ cond.render ++ ")")
        :: braced depth (layoutAll call (depth + 1) first) ++ HostArm.layoutAll call depth arms₁
        ++ before, behind, ?_⟩
      rw [layout, layoutArms_eq, List.flatMap_append, List.flatMap_cons, ← layoutArms_eq,
        ← layoutArms_eq]
      simp only [List.append_assoc] at hsplit ⊢
      rw [hsplit]
    · rw [layout, layoutElse]
      obtain ⟨before, behind, hsplit⟩ := headed "else" []
      refine ⟨.code depth ("if(" ++ cond.render ++ ")")
        :: braced depth (layoutAll call (depth + 1) first) ++ HostArm.layoutAll call depth arms
        ++ before, behind, ?_⟩
      simp only [List.append_nil, List.append_assoc] at hsplit ⊢
      rw [hsplit]
  | whileLoop cond first =>
    obtain rfl := List.mem_singleton.mp h
    obtain ⟨before, behind, hsplit⟩ := headed ("while(" ++ cond.render ++ ")") []
    exact ⟨before, behind, (List.append_nil _).symm.trans hsplit⟩
  | doWhile first cond =>
    obtain rfl := List.mem_singleton.mp h
    exact headed "do" _
  | forLoop init cond step first =>
    obtain rfl := List.mem_singleton.mp h
    obtain ⟨before, behind, hsplit⟩ := headed _ []
    exact ⟨before, behind, (List.append_nil _).symm.trans hsplit⟩
  | block first =>
    obtain rfl := List.mem_singleton.mp h
    exact ⟨[.code depth "\x7b"], [.code depth "\x7d"], by simp [layout, braced]⟩
  | _ => cases h

end HostStmt

/-! ### Declarations above a place -/

/-- A line above declares a local variable by this name, in a block that is still open
at the depth. -/
def DeclaredAbove (above : List OutputLine) (depth : Nat) (name : String) : Prop :=
  ∃ before d behind, ∃ (ty : Ty) (value : String),
    above = before ++ .code d (ty.hostName ++ " " ++ name ++ " = " ++ value ++ ";") :: behind
      ∧ d ≤ depth ∧ ∀ line ∈ behind, line.Within d

namespace DeclaredAbove

variable {above more : List OutputLine} {name : String} {d : Nat}

/-- Lines that leave no block keep what is declared, also for the blocks inside. -/
theorem extend (h : DeclaredAbove above depth name) (hmore : ∀ line ∈ more, line.Within depth)
    (hd : depth ≤ d) : DeclaredAbove (above ++ more) d name := by
  obtain ⟨before, d', behind, ty, value, rfl, hd', hbehind⟩ := h
  refine ⟨before, d', behind ++ more, ty, value, by simp, Nat.le_trans hd' hd, fun line hline => ?_⟩
  rcases List.mem_append.mp hline with hline | hline
  · exact hbehind line hline
  · exact (hmore line hline).mono hd'

theorem self (ty : Ty) (k : Nat) (name : String) (value : HostExpr) :
    DeclaredAbove (above ++ (HostStmt.declare ty k name value).layout call depth) depth
      (HostName.inner k name) :=
  ⟨above, depth, [], ty, value.render, rfl, Nat.le_refl depth, by simp⟩

end DeclaredAbove

/-- What the statements declare is declared above. -/
def DeclaredBy (stmts : List HostStmt) (above : List OutputLine) (depth : Nat) : Prop :=
  ∀ s ∈ stmts, ∀ k name, s.declared? = some (k, name) →
    DeclaredAbove above depth (HostName.inner k name)

theorem DeclaredBy.extend {stmts : List HostStmt} {above more : List OutputLine} {d : Nat}
    (h : DeclaredBy stmts above depth) (hmore : ∀ line ∈ more, line.Within depth) (hd : depth ≤ d) :
    DeclaredBy stmts (above ++ more) d := fun s hs k name hdecl =>
  (h s hs k name hdecl).extend hmore hd

/-- Behind a statement its own declaration is above too. -/
theorem DeclaredBy.snoc {stmts : List HostStmt} {above : List OutputLine}
    (h : DeclaredBy stmts above depth) (s : HostStmt) :
    DeclaredBy (stmts ++ [s]) (above ++ s.layout call depth) depth := by
  intro x hx k name hdecl
  rcases List.mem_append.mp hx with hx | hx
  · exact h.extend HostStmt.layout_within (Nat.le_refl depth) x hx k name hdecl
  · obtain rfl := List.mem_singleton.mp hx
    cases x with
    | declare ty k' name' value =>
      cases hdecl
      exact .self ty k name value
    | _ => cases hdecl

/-- **Every statement has its place in the lines**, with what is declared before it
declared above. The induction is on the code. -/
theorem HostStmt.spots_written {code before : List HostStmt} {blocks : List (List HostStmt)}
    {above : List OutputLine} (h : DeclaredBy before above depth) :
    ∀ spot ∈ spotsOf before blocks code, ∃ front d behind,
      layoutAll call depth code = front ++ spot.stmt.layout call d ++ behind
        ∧ DeclaredBy spot.before (above ++ front) d := by
  induction code using code_induction generalizing before blocks above depth with
  | nil => simp [spotsOf]
  | cons s rest ihin ihrest =>
    intro spot hspot
    rw [spotsOf_cons] at hspot
    rcases List.mem_append.mp hspot with hspot | hspot
    · rcases List.mem_cons.mp hspot with rfl | hspot
      · exact ⟨[], depth, layoutAll call depth rest, rfl, by simpa using h⟩
      · obtain ⟨body, hbody, hspot⟩ := List.mem_flatMap.mp hspot
        obtain ⟨first, last, hsplit⟩ := @layout_split call depth s body hbody
        have hfirst : ∀ line ∈ first, line.Within depth := fun line hline =>
          @layout_within call depth s line (by simp [hsplit, hline])
        obtain ⟨front, d, behind, hlines, hdecl⟩ :=
          ihin body hbody (h.extend hfirst (Nat.le_succ depth)) spot hspot
        refine ⟨first ++ front, d, behind ++ last ++ layoutAll call depth rest, ?_, ?_⟩
        · rw [layoutAll, hsplit, hlines]
          simp [List.append_assoc]
        · rwa [← List.append_assoc]
    · obtain ⟨front, d, behind, hlines, hdecl⟩ := ihrest (h.snoc s) spot hspot
      refine ⟨s.layout call depth ++ front, d, behind, ?_, ?_⟩
      · rw [layoutAll, hlines]
        simp [List.append_assoc]
      · rwa [← List.append_assoc]

/-! ### Places of control -/

/-- The lines above a place, of the lines of a body: the statements of each block
around it that have run are above it. -/
inductive Cursor.Stands (call : String) (lines : List OutputLine) :
    List Cursor → List OutputLine → Nat → Prop where
  | outermost {done rest : List HostStmt} {above behind : List OutputLine} {depth : Nat}
    (h : lines = above ++ HostStmt.layoutAll call depth (done ++ rest) ++ behind) :
    Stands call lines [⟨done ++ rest, rest⟩] (above ++ HostStmt.layoutAll call depth done) depth
  | inside {done rest outer left : List HostStmt} {s : HostStmt} {around : List Cursor}
    {above first last : List OutputLine} {depth : Nat}
    (hbody : done ++ rest ∈ s.bodies)
    (h : s.layout call depth
      = first ++ HostStmt.layoutAll call (depth + 1) (done ++ rest) ++ last)
    (haround : Stands call lines (⟨outer, s :: left⟩ :: around) above depth) :
    Stands call lines (⟨done ++ rest, rest⟩ :: ⟨outer, s :: left⟩ :: around)
      (above ++ first ++ HostStmt.layoutAll call (depth + 1) done) (depth + 1)

/-- What is left of the innermost block comes next in the lines. -/
theorem Cursor.Stands.next {lines above : List OutputLine} {c : Cursor} {around : List Cursor}
    (h : Stands call lines (c :: around) above depth) :
    ∃ behind, lines = above ++ HostStmt.layoutAll call depth c.rest ++ behind := by
  generalize hl : c :: around = cs at h
  induction h generalizing c around with
  | @outermost done rest above behind depth h =>
    obtain ⟨rfl, -⟩ := List.cons.inj hl
    refine ⟨behind, ?_⟩
    rw [h, HostStmt.layoutAll_append]
    simp only [List.append_assoc]
  | @inside done rest outer left s around above first last depth hbody h haround ih =>
    obtain ⟨rfl, -⟩ := List.cons.inj hl
    obtain ⟨behind, hlines⟩ := ih rfl
    refine ⟨last ++ HostStmt.layoutAll call depth left ++ behind, ?_⟩
    rw [hlines, HostStmt.layoutAll, h, HostStmt.layoutAll_append]
    simp only [List.append_assoc]

/-- **Every place of control has a place in the lines.** -/
theorem Cursor.Nested.stands {body : List HostStmt} {cursors : List Cursor}
    {lines above behind : List OutputLine} (h : Cursor.Nested body cursors)
    (hlines : lines = above ++ HostStmt.layoutAll call depth body ++ behind) :
    ∃ above d, Cursor.Stands call lines cursors above d := by
  induction h with
  | outermost h =>
    obtain ⟨done, rfl⟩ := h
    exact ⟨_, _, .outermost hlines⟩
  | inside h hblock _ ih =>
    obtain ⟨done, rfl⟩ := h
    obtain ⟨above, d, hstands⟩ := ih
    obtain ⟨first, last, hsplit⟩ := @HostStmt.layout_split call d _ _ hblock
    exact ⟨_, _, .inside hblock hsplit hstands⟩

/-- At this place of control the call comes next in the lines, on a line of its own or
behind a label. -/
def HostPoint.CallsIn (call : String) (lines : List OutputLine) (p : HostPoint) : Prop :=
  p.testing = false ∧ ∃ above depth text behind,
    Cursor.Stands call lines (p.here :: p.around) above depth
      ∧ lines = above ++ .code depth text :: behind
      ∧ (text = call ++ ";" ∨ ∃ name, text = "LSLLabel_" ++ name ++ ": " ++ call ++ ";")

/-- **A checkpoint is written as the call.** -/
theorem HostPoint.Checks.callsIn {p : HostPoint} {body : List HostStmt} (h : p.Checks)
    (hp : p.In body) : p.CallsIn call (HostStmt.layoutAll call depth body) := by
  obtain ⟨htesting, s, rest, hrest, hs⟩ := h
  obtain ⟨above, d, hstands⟩ := Cursor.Nested.stands hp
    (show HostStmt.layoutAll call depth body = [] ++ HostStmt.layoutAll call depth body ++ [] by simp)
  obtain ⟨behind, hlines⟩ := hstands.next
  rw [hrest] at hlines
  rcases hs with rfl | ⟨name, rfl⟩
  · exact ⟨htesting, above, d, _, HostStmt.layoutAll call d rest ++ behind, hstands,
      by rw [hlines, List.append_assoc]; rfl, .inl rfl⟩
  · exact ⟨htesting, above, d, _, HostStmt.layoutAll call d rest ++ behind, hstands,
      by rw [hlines, List.append_assoc]; rfl, .inr ⟨name, rfl⟩⟩

end Lsl
