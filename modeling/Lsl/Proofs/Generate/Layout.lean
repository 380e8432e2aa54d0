/- # The lines of a unit

The output is the text of its lines, and among them stand those of every member:
the methods, the container of the globals with its fields and its constructor, and
last the definitions of operator methods, behind which only braces are closed.

Key definitions: `OutputLine.WrittenAs`, `Operation.definition`, `containerLines`,
`HostUnit.StandsIn`, `HostUnit.exprs`.
Key theorems: `OutputLine.renderAll_writtenAs`, `HostUnit.layout_eq`, `HostUnit.StandsIn.shows`.
-/
import Lsl.Generate.Unit
import Lsl.Proofs.Host.Lines

namespace Lsl

/-! ### The text of lines -/

namespace OutputLine

/-- A line is written behind its tabs; where a gap is wanted, there is a blank line or
nothing. -/
def Written : OutputLine → String → Prop
  | code depth text, piece => piece = String.ofList (List.replicate depth '\t') ++ text ++ "\n"
  | gap, piece => piece = "" ∨ piece = "\n"

/-- The text is that of the lines, one behind the other. -/
def WrittenAs (lines : List OutputLine) (text : String) : Prop :=
  ∃ pieces, List.Forall₂ Written lines pieces ∧ text = String.join pieces

theorem addTo_written (line : OutputLine) (out : String) :
    ∃ piece, line.Written piece ∧ line.addTo out = out ++ piece := by
  cases line with
  | code depth text => exact ⟨_, rfl, by simp [addTo, String.append_assoc]⟩
  | gap =>
    simp only [addTo]
    split
    · exact ⟨"", .inl rfl, by simp⟩
    · exact ⟨"\n", .inr rfl, rfl⟩

/-- **The output is the text of its lines.** -/
theorem renderAll_writtenAs (lines : List OutputLine) : WrittenAs lines (renderAll lines) := by
  have hfrom : ∀ (lines : List OutputLine) (out : String), ∃ pieces,
      List.Forall₂ Written lines pieces ∧ lines.foldl addTo out = out ++ String.join pieces := by
    intro lines
    induction lines with
    | nil => exact fun out => ⟨[], .nil, by simp⟩
    | cons line rest ih =>
      intro out
      obtain ⟨piece, hpiece, hout⟩ := line.addTo_written out
      obtain ⟨pieces, hpieces, hrest⟩ := ih (out ++ piece)
      refine ⟨piece :: pieces, .cons hpiece hpieces, ?_⟩
      rw [List.foldl_cons, hout, hrest, String.join_cons, String.append_assoc]
  obtain ⟨pieces, hpieces, htext⟩ := hfrom lines ""
  exact ⟨pieces, hpieces, by rw [renderAll, htext]; simp⟩

end OutputLine

/-! ### Groups of lines -/

theorem withGaps_eq (groups : List (List OutputLine)) :
    withGaps groups = [OutputLine.gap].intercalate groups := by
  induction groups with
  | nil => rfl
  | cons group rest ih =>
    cases rest with
    | nil => simp [withGaps]
    | cons next rest =>
      change group ++ .gap :: withGaps (next :: rest) = _
      rw [ih, List.intercalate_cons_cons]
      simp

theorem withGaps_holds {groups : List (List OutputLine)} {group : List OutputLine}
    (h : group ∈ groups) : group <:+: withGaps groups := by
  induction groups with
  | nil => cases h
  | cons first rest ih =>
    cases rest with
    | nil =>
      obtain rfl := List.mem_singleton.mp h
      exact List.infix_refl group
    | cons next rest =>
      rcases List.mem_cons.mp h with rfl | h
      · exact (List.prefix_append group _).isInfix
      · exact (ih h).trans ((List.suffix_cons _ _).isInfix.trans (List.suffix_append first _).isInfix)

theorem flatMap_holds {α : Type} {f : α → List OutputLine} {l : List α} {a : α} (h : a ∈ l) :
    f a <:+: l.flatMap f := by
  obtain ⟨before, behind, rfl⟩ := List.append_of_mem h
  rw [List.flatMap_append, List.flatMap_cons]
  exact List.infix_append' _ _ _

/-! ### The members -/

/-- The method stands among the lines, with these between its braces. -/
def HostMethod.StandsIn (m : HostMethod) (lines : List OutputLine) (depth : Nat)
    (inner : List OutputLine) : Prop :=
  [.code depth m.heading, .code depth "\x7b"] ++ inner ++ [.code depth "\x7d"] <:+: lines

/-- The definition of an operator method. -/
def Operation.definition (depth : Nat) (o : Operation) : List OutputLine :=
  [.code depth ("private " ++ o.result.hostName ++ " " ++ o.name ++ "(" ++ o.right.hostName
      ++ " right, " ++ o.left.hostName ++ " left)"),
    .code depth "\x7b", .code (depth + 1) ("return left " ++ o.op.symbol ++ " right;"),
    .code depth "\x7d"]

/-- The line that declares the field of a global. -/
def HostField.declaration (depth : Nat) (g : HostField) : OutputLine :=
  .code depth ("public " ++ g.ty.hostName ++ " " ++ HostName.field g.name ++ ";")

/-- The line that sets the field of a global. -/
def HostField.assignment (depth : Nat) (g : HostField) : OutputLine :=
  .code depth ("this." ++ HostName.field g.name ++ " = " ++ g.value.render ++ ";")

/-- A class with these lines for its fields and these in its constructor. -/
def containerLines (depth : Nat) (fields values : List OutputLine) : List OutputLine :=
  [.code depth "private class GLOBALS", .code depth "\x7b"] ++ fields
    ++ [.code (depth + 1) "public GLOBALS()", .code (depth + 1) "\x7b"] ++ values
    ++ [.code (depth + 1) "\x7d", .code depth "\x7d"]

/-- The line of a member of the utility class that gives a value of a type, and to which
anything may be assigned. -/
def standInLine (depth : Nat) (ty : Ty) (member value : String) : OutputLine :=
  .code depth ("\tpublic static " ++ ty.hostName ++ " " ++ member ++ " \x7b get \x7b return new "
    ++ ty.hostName ++ "(" ++ value ++ "); \x7d set \x7b \x7d \x7d")

namespace HostUnit

variable {u : HostUnit} {m : HostMethod} {settings : Settings}

theorem layoutClass_eq (settings : Settings) (depth : Nat) (members : Nat → List OutputLine) :
    ∃ head, layoutClass settings depth members
      = [.code depth head, .code depth "\x7b"] ++ members (depth + 1) ++ [.code depth "\x7d"] :=
  ⟨_, rfl⟩

/-- The members stand in the unit, and behind them only braces are closed. -/
theorem members_lines (u : HostUnit) (settings : Settings) : ∃ above depth closing,
    u.layout settings = above ++ u.layoutMembers settings depth ++ closing
      ∧ ∀ line ∈ closing, ∃ d, line = .code d "\x7d" := by
  unfold layout
  simp only
  split
  · split
    · rename_i name _
      obtain ⟨head, hclass⟩ := layoutClass_eq settings 1 (u.layoutMembers settings)
      refine ⟨layoutHeader settings
        ++ settings.imports.map (fun name => .code 0 ("using " ++ name ++ ";"))
        ++ [.gap, .code 0 ("namespace " ++ name), .code 0 "\x7b", .code 1 head, .code 1 "\x7b"],
        2, [.code 1 "\x7d", .code 0 "\x7d"], ?_, by simp⟩
      simp [hclass, braced]
    · obtain ⟨head, hclass⟩ := layoutClass_eq settings 0 (u.layoutMembers settings)
      refine ⟨layoutHeader settings
        ++ settings.imports.map (fun name => .code 0 ("using " ++ name ++ ";"))
        ++ [.gap, .code 0 head, .code 0 "\x7b"], 1, [.code 0 "\x7d"], ?_, by simp⟩
      simp [hclass]
  · exact ⟨layoutHeader settings, 0, [], by simp, by simp⟩

variable {depth : Nat}

theorem layoutState_holds {call : String} {handlers : List HostMethod} (h : m ∈ handlers) :
    m.layout call depth <:+: layoutState call depth handlers :=
  (withGaps_holds (List.mem_map_of_mem (f := fun m => m.layout call depth) h)).trans
    (List.prefix_append _ _).isInfix

theorem layoutStates_holds {call : String} {states : List (List HostMethod)}
    (h : m ∈ states.flatten) : m.layout call depth <:+: layoutStates call depth states := by
  obtain ⟨handlers, hmem, h⟩ := List.mem_flatten.mp h
  unfold layoutStates
  rw [if_neg (by simpa using List.ne_nil_of_mem hmem)]
  exact ((layoutState_holds h).trans (flatMap_holds hmem)).trans (List.suffix_append _ _).isInfix

theorem layoutFunctions_holds {call : String} {functions : List HostMethod} (h : m ∈ functions) :
    m.layout call depth <:+: layoutFunctions call depth functions := by
  unfold layoutFunctions
  rw [if_neg (by simpa using List.ne_nil_of_mem h)]
  have hone : m.layout call depth <:+: m.layout call depth ++ [.gap] :=
    (List.prefix_append _ _).isInfix
  exact (hone.trans (flatMap_holds (f := fun m => m.layout call depth ++ [.gap]) h)).trans
    (List.suffix_append _ _).isInfix

theorem layoutOperations_eq (depth : Nat) (operations : List Operation) : ∃ title,
    layoutOperations depth operations
      = title ++ [OutputLine.gap].intercalate (operations.map (·.definition depth)) := by
  unfold layoutOperations
  split
  · rename_i hnone
    obtain rfl : operations = [] := by simpa using hnone
    exact ⟨[], rfl⟩
  · exact ⟨_, by rw [withGaps_eq]; rfl⟩

/-- The definitions of operator methods stand last, behind all other members. -/
theorem layoutMembers_eq (u : HostUnit) (settings : Settings) (depth : Nat) : ∃ above,
    u.layoutMembers settings depth
        = above ++ [OutputLine.gap].intercalate (u.operations.map (·.definition depth))
      ∧ utilityClass.map (.code depth) <:+: above
      ∧ layoutGlobals depth u.globals <:+: above
      ∧ ∀ m ∈ u.methods, m.layout settings.coopCall depth <:+: above := by
  obtain ⟨title, hoperations⟩ := layoutOperations_eq depth u.operations
  have right : ∀ {l a : List OutputLine} (b : List OutputLine), l <:+: a → l <:+: a ++ b :=
    fun b h => h.trans (List.prefix_append _ b).isInfix
  have last : ∀ (a l : List OutputLine), l <:+: a ++ l := fun a l => (List.suffix_append a l).isInfix
  refine ⟨_, by rw [layoutMembers, hoperations, ← List.append_assoc], ?_, ?_, fun m hm => ?_⟩
  · exact right _ (right _ (right _ (right _ (right _ (right _ (right _ (List.infix_refl _)))))))
  · exact right _ (right _ (right _ (right _ (right _ (last _ _)))))
  · simp only [methods, List.mem_append] at hm
    rcases hm with (hm | hm) | hm
    · exact right _ (right _ (right _ (right _ ((layoutFunctions_holds hm).trans (last _ _)))))
    · exact right _ (right _ (right _ ((layoutStates_holds hm).trans (last _ _))))
    · exact right _ ((layoutState_holds hm).trans (last _ _))

theorem layoutGlobals_holds {globals : List HostField} (h : globals ≠ []) :
    containerLines depth (globals.map (·.declaration (depth + 1)))
      (globals.map (·.assignment (depth + 2))) <:+: layoutGlobals depth globals := by
  unfold layoutGlobals
  rw [if_neg (by simpa using h)]
  refine ⟨banner depth "Global Variable Container",
    [.gap, .code depth "private GLOBALS Globals = new GLOBALS();", .gap], ?_⟩
  simp [containerLines, braced]
  rfl

/-- All members but the operator methods stand among these lines. -/
structure StandsIn (u : HostUnit) (call : String) (depth : Nat) (lines : List OutputLine) :
    Prop where
  utilities : utilityClass.map (.code depth) <:+: lines
  globals : u.globals ≠ [] → containerLines depth (u.globals.map (·.declaration (depth + 1)))
    (u.globals.map (·.assignment (depth + 2))) <:+: lines
  methods : ∀ m ∈ u.methods,
    m.StandsIn lines depth (HostStmt.layoutAll call (depth + 1) m.body)

/-- **The lines of a unit**: last come the definitions of operator methods, and above
them stand all other members. -/
theorem layout_eq (u : HostUnit) (settings : Settings) : ∃ above depth closing,
    u.layout settings
        = above ++ [OutputLine.gap].intercalate (u.operations.map (·.definition depth)) ++ closing
      ∧ (∀ line ∈ closing, ∃ d, line = .code d "\x7d")
      ∧ u.StandsIn settings.coopCall depth above := by
  obtain ⟨front, depth, closing, hlayout, hclosing⟩ := u.members_lines settings
  obtain ⟨above, hmembers, hutilities, hglobals, hmethods⟩ := u.layoutMembers_eq settings depth
  have hfront : above <:+: front ++ above := (List.suffix_append _ _).isInfix
  refine ⟨front ++ above, depth, closing, ?_, hclosing, hutilities.trans hfront,
    fun h => ((layoutGlobals_holds h).trans hglobals).trans hfront,
    fun m hm => (hmethods m hm).trans hfront⟩
  rw [hlayout, hmembers]
  simp only [List.append_assoc]

/-- All expressions of a unit. -/
def exprs (u : HostUnit) : List HostExpr :=
  u.globals.map (·.value) ++ u.methods.flatMap fun m => m.spots.flatMap (·.stmt.exprs)

variable {call : String} {lines : List OutputLine}

theorem StandsIn.mono {more : List OutputLine} (h : u.StandsIn call depth lines)
    (hmore : lines <:+: more) : u.StandsIn call depth more :=
  ⟨h.utilities.trans hmore, fun hg => (h.globals hg).trans hmore,
    fun m hm => (h.methods m hm).trans hmore⟩

/-- The members of a unit stand in its lines. -/
theorem standsIn_layout (u : HostUnit) (settings : Settings) :
    ∃ depth, u.StandsIn settings.coopCall depth (u.layout settings) := by
  obtain ⟨above, depth, closing, hlines, -, hstands⟩ := u.layout_eq settings
  refine ⟨depth, hstands.mono ?_⟩
  rw [hlines, List.append_assoc]
  exact (List.prefix_append _ _).isInfix

/-- The utility class has a stand-in for variables of each type. -/
theorem StandsIn.standIn (h : u.StandsIn call depth lines) {ty : Ty} (hty : ty ≠ .void) :
    ∃ member value depth, (HostExpr.absent ty).render = "UTILITIES." ++ member
      ∧ standInLine depth ty member value ∈ lines := by
  have hmember : ∀ member value, (HostExpr.absent ty).render = "UTILITIES." ++ member →
      standInLine depth ty member value ∈ utilityClass.map (.code depth) →
      ∃ member value depth, (HostExpr.absent ty).render = "UTILITIES." ++ member
        ∧ standInLine depth ty member value ∈ lines := fun member value hname hline =>
    ⟨member, value, depth, hname, h.utilities.subset hline⟩
  cases ty with
  | integer => exact hmember "DefaultInteger" "0" rfl (List.mem_map_of_mem (by decide))
  | float => exact hmember "DefaultFloat" "0.0" rfl (List.mem_map_of_mem (by decide))
  | string => exact hmember "DefaultString" "\"\"" rfl (List.mem_map_of_mem (by decide))
  | key => exact hmember "DefaultString" "\"\"" rfl (List.mem_map_of_mem (by decide))
  | vector => exact hmember "DefaultVector" "0,0,0" rfl (List.mem_map_of_mem (by decide))
  | rotation => exact hmember "DefaultRotation" "0,0,0,1" rfl (List.mem_map_of_mem (by decide))
  | list => exact hmember "DefaultList" "" rfl (List.mem_map_of_mem (by decide))
  | void => exact absurd rfl hty

/-- The lines of a method show the expressions in it. -/
theorem method_shows {spot : Spot} {e : HostExpr} (hspot : spot ∈ m.spots)
    (he : e ∈ spot.stmt.exprs) : ∃ line ∈ m.layout call depth, ∃ d, line.Shows d e := by
  have hnone : DeclaredBy [] [] (depth + 1) := fun _ h => by cases h
  obtain ⟨front, d, behind, hlines, -⟩ := @HostStmt.spots_written call _ _ _ _ _ hnone spot hspot
  obtain ⟨line, hline, hshows⟩ := @HostStmt.shows_exprs call d _ _ he
  refine ⟨line, ?_, d, hshows⟩
  refine List.mem_cons_of_mem _ (List.mem_append_left _ (List.mem_cons_of_mem _ ?_))
  rw [hlines]
  exact List.mem_append_left _ (List.mem_append_right _ hline)

/-- **Every expression of a unit is shown by a line.** -/
theorem StandsIn.shows (h : u.StandsIn call depth lines) {e : HostExpr} (he : e ∈ u.exprs) :
    ∃ line ∈ lines, ∃ d, line.Shows d e := by
  rcases List.mem_append.mp he with he | he
  · obtain ⟨g, hg, rfl⟩ := List.mem_map.mp he
    refine ⟨g.assignment (depth + 2), ?_, depth + 2, _, rfl, ((Text.Holds.refl _).left _).right _⟩
    refine (h.globals (List.ne_nil_of_mem hg)).subset ?_
    have hline := List.mem_map_of_mem (f := fun g => HostField.assignment (depth + 2) g) hg
    exact List.mem_append_left _ (List.mem_append_right _ hline)
  · obtain ⟨m, hm, he⟩ := List.mem_flatMap.mp he
    obtain ⟨spot, hspot, he⟩ := List.mem_flatMap.mp he
    obtain ⟨line, hline, hshows⟩ := @method_shows m depth call spot e hspot he
    exact ⟨line, (h.methods m hm).subset hline, hshows⟩

end HostUnit

end Lsl
