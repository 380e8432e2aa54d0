/- # Names of generated methods

The method of a handler is named after its state and its event, with `_event_`
between them, and the method of a function has its name behind `FN_`. Names may
hold such separators themselves, so a longer state with a shorter event can come
out the same, and so can a function. These are the only ways: in what is generated
for a script without errors, two methods have one name only if the parts of their
names overlap like this.

Key definitions: `HostName.Overlap`, `HostName.Mimics`, `Script.handlerNames`.
Key theorems: `HostName.handler_eq_iff`, `HostName.function_eq_handler_iff`,
`Script.method_names`.
-/
import Lsl.Proofs.Generate.Definitions
import Lsl.Proofs.Scoping.Distinct
import Lsl.Script.Build

namespace Lsl

/-! ### Joined names -/

namespace HostName

/-- The second state goes on where the first one ends, with a part of the first
event. -/
def Overlap (state event state' event' : String) : Prop :=
  (state' = state ++ "_event" ∧ event = "event_" ++ event')
    ∨ ∃ middle, state' = state ++ "_event_" ++ middle ∧ event = middle ++ "_event_" ++ event'

/-- The function is called as the handler's method is without its first letters. -/
def Mimics (function state event : String) : Prop :=
  (state = "FN" ∧ function = "event_" ++ event)
    ∨ ∃ middle, state = "FN_" ++ middle ∧ function = middle ++ "_event_" ++ event

variable {s s' e e' f : String}

/-- Where separator and event of one name stand behind a part `a` of the state of
the other, `a` is empty or overlaps with the separator. -/
theorem separator_overlap {a x y : List Char}
    (h : "_event_".toList ++ x = a ++ ("_event_".toList ++ y)) :
    (a = [] ∧ x = y) ∨ (a = "_event".toList ∧ x = "event_".toList ++ y)
      ∨ ∃ z, a = "_event_".toList ++ z ∧ x = z ++ ("_event_".toList ++ y) := by
  -- the separator has seven letters
  rcases a with _ | ⟨c₁, _ | ⟨c₂, _ | ⟨c₃, _ | ⟨c₄, _ | ⟨c₅, _ | ⟨c₆, _ | ⟨c₇, z⟩⟩⟩⟩⟩⟩⟩ <;>
    simp_all <;> grind

theorem toList_handler (s e : String) :
    (handler s e).toList = s.toList ++ ("_event_".toList ++ e.toList) := by
  simp [handler]

theorem overlap_of_split {a : List Char} (hs : s'.toList = s.toList ++ a)
    (h : "_event_".toList ++ e.toList = a ++ ("_event_".toList ++ e'.toList)) :
    (s = s' ∧ e = e') ∨ Overlap s e s' e' := by
  rcases separator_overlap h with ⟨rfl, he⟩ | ⟨rfl, he⟩ | ⟨z, rfl, he⟩
  · exact .inl ⟨String.ext (by simpa using hs.symm), String.ext he⟩
  · exact .inr (.inl ⟨String.ext (by simpa using hs), String.ext (by simpa using he)⟩)
  · refine .inr (.inr ⟨String.ofList z, String.ext ?_, String.ext ?_⟩)
    · simpa using hs
    · simpa using he

theorem handler_of_overlap (h : Overlap s e s' e') : handler s e = handler s' e' := by
  rcases h with ⟨rfl, rfl⟩ | ⟨z, rfl, rfl⟩
  · exact String.ext (by simp [handler])
  · exact String.ext (by simp [handler])

/-- **Methods of handlers have one name only if their parts overlap.** -/
theorem handler_eq_iff :
    handler s e = handler s' e' ↔ (s = s' ∧ e = e') ∨ Overlap s e s' e' ∨ Overlap s' e' s e := by
  constructor
  · intro h
    have hlist := congrArg String.toList h
    rw [toList_handler, toList_handler] at hlist
    rcases List.append_eq_append_iff.mp hlist with ⟨a, hs, he⟩ | ⟨a, hs, he⟩
    · exact (overlap_of_split hs he).imp_right .inl
    · exact (overlap_of_split hs he).imp (fun h => ⟨h.1.symm, h.2.symm⟩) .inr
  · rintro (⟨rfl, rfl⟩ | h | h)
    · rfl
    · exact handler_of_overlap h
    · exact (handler_of_overlap h).symm

/-- **The method of a function is named like that of a handler only if it mimics it.** -/
theorem function_eq_handler_iff : function f = handler s e ↔ Mimics f s e := by
  constructor
  · intro h
    have hlist := congrArg String.toList h
    rw [toList_handler, function, String.toList_append] at hlist
    -- the state ends before the third letter of `FN_`, or behind it
    rcases hs : s.toList with _ | ⟨c₁, _ | ⟨c₂, _ | ⟨c₃, rest⟩⟩⟩ <;> rw [hs] at hlist
    · simp at hlist
    · simp at hlist
    · obtain ⟨rfl, rfl, hf⟩ : 'F' = c₁ ∧ 'N' = c₂ ∧ f.toList = "event_".toList ++ e.toList := by
        simpa using hlist
      exact .inl ⟨String.ext (by simpa using hs), String.ext (by simpa using hf)⟩
    · obtain ⟨rfl, rfl, rfl, hf⟩ : 'F' = c₁ ∧ 'N' = c₂ ∧ '_' = c₃
          ∧ f.toList = rest ++ ("_event_".toList ++ e.toList) := by
        simpa using hlist
      exact .inr ⟨String.ofList rest, String.ext (by simpa using hs), String.ext (by simpa using hf)⟩
  · rintro (⟨rfl, rfl⟩ | ⟨z, rfl, rfl⟩)
    · exact String.ext (by simp [function, handler])
    · exact String.ext (by simp [function, handler])

theorem function_injective : Function.Injective function := fun f g h =>
  String.ext (by simpa [function] using congrArg String.toList h)

theorem not_overlap_self : ¬ Overlap s e s e := by
  have hlonger : ∀ t : String, t ≠ "" → s ≠ s ++ t := fun t ht h =>
    ht (String.ext (by simpa using congrArg String.toList h))
  rintro (⟨hs, -⟩ | ⟨z, hs, -⟩)
  · exact hlonger "_event" (by decide) hs
  · rw [String.append_assoc] at hs
    exact hlonger _ (fun h => by simpa using congrArg String.toList h) hs

end HostName

/-! ### The methods of a script -/

/-- The state and the event of each handler, those of the default state first. -/
def Script.handlerNames (script : Script) : List (String × String) :=
  script.allStates.flatMap fun d => d.handlers.map fun h => (d.name, h.name)

variable {library : Catalog} {script : Script} {run : Run} {root : NodeId} {n : ScriptNode}
  {o : Surroundings} {checkpoints : Bool} {u : HostUnit}

open Generator

theorem hostHandler_name {t : Tree} {state : String} {id : NodeId} {m : HostMethod}
    (h : (hostHandler t checkpoints state id).Gives m) :
    ∃ e, t.kind? id = some (.handler e) ∧ m.name = HostName.handler state e.name := by
  unfold hostHandler at h
  split at h
  · rename_i e hkind
    obtain ⟨params, -, h⟩ := h.bind
    obtain ⟨body, -, h⟩ := h.bind
    obtain rfl := h.pure
    exact ⟨e, hkind, rfl⟩
  · exact absurd h not_gives_throw

theorem hostHandlers_names {state : String} {ds : List HandlerDecl} {ids : List NodeId}
    {ms : List HostMethod} (h : List.Forall₂ (run.HoldsHandler library o) ds ids)
    (hms : List.Forall₂ (fun id m => (hostHandler run.tree checkpoints state id).Gives m) ids ms) :
    ms.map (·.name) = ds.map fun d => HostName.handler state d.name := by
  induction h generalizing ms with
  | nil =>
    cases hms
    rfl
  | cons hone _ ih =>
    cases hms with
    | cons hm hrest =>
      obtain ⟨node, e, hkind, hname, -⟩ := hone
      obtain ⟨e', hkind', hm⟩ := hostHandler_name hm
      obtain rfl : e = e' := by
        rw [hkind] at hkind'
        cases hkind'
        rfl
      rw [List.map_cons, List.map_cons, ih hrest, hm, hname]

theorem Run.HoldsState.handler_methods {d : StateDecl} {id : NodeId} {ms : List HostMethod}
    (h : run.HoldsState library o d id) (hms : (hostState run.tree checkpoints id).Gives ms) :
    ms.map (·.name) = d.handlers.map fun h => HostName.handler d.name h.name := by
  obtain ⟨state, hkind, hname, hhandlers, -⟩ := h
  rw [hostState, hkind] at hms
  rw [hostHandlers_names hhandlers hms.mapM, hname]

theorem hostStates_names {ds : List StateDecl} {ids : List NodeId} {mss : List (List HostMethod)}
    (h : List.Forall₂ (run.HoldsState library o) ds ids)
    (hms : List.Forall₂ (fun id ms => (hostState run.tree checkpoints id).Gives ms) ids mss) :
    mss.flatten.map (·.name)
      = ds.flatMap fun d => d.handlers.map fun h => HostName.handler d.name h.name := by
  induction h generalizing mss with
  | nil =>
    cases hms
    rfl
  | cons hone _ ih =>
    cases hms with
    | cons hm hrest =>
      rw [List.flatten_cons, List.map_append, hone.handler_methods hm, ih hrest, List.flatMap_cons]

theorem hostFunctions_names {t : Tree} {fs : List FunctionNode} {ms : List HostMethod}
    (h : List.Forall₂ (fun f m => (hostFunction t checkpoints f).Gives m) fs ms) :
    ms.map (·.name) = fs.map fun f => HostName.function f.name := by
  induction h with
  | nil => rfl
  | cons hone _ ih => rw [List.map_cons, List.map_cons, ih, hostFunction_name hone]

theorem function_names {t : Tree} {xs : List (FunctionDecl × NodeId)}
    (h : ∀ x ∈ xs, ∃ f, t.function? x.2 = some f ∧ f.name = x.1.name) :
    ((xs.map (·.2)).filterMap t.function?).map (·.name) = xs.map (·.1.name) := by
  induction xs with
  | nil => rfl
  | cons x rest ih =>
    obtain ⟨f, hf, hname⟩ := h x List.mem_cons_self
    rw [List.map_cons, List.filterMap_cons, hf, List.map_cons, List.map_cons,
      ih fun y hy => h y (List.mem_cons_of_mem _ hy), hname]

namespace Run.Clean

variable (h : run.Clean library script root n) (hu : (hostUnit run.tree checkpoints n).Gives u)

include h hu

/-- The methods of the handlers are named after state and event. -/
theorem handler_names : (u.defaultState ++ u.states.flatten).map (·.name)
    = script.handlerNames.map fun p => HostName.handler p.1 p.2 := by
  obtain ⟨globals, -, hu⟩ := hu.bind
  obtain ⟨functions, -, hu⟩ := hu.bind
  obtain ⟨states, hstates, hu⟩ := hu.bind
  rcases hd : n.defaultState with _ | d
  · rw [hd] at hu
    exact absurd hu not_gives_throw
  · rw [hd] at hu
    obtain ⟨ms, hms, hu⟩ := hu.bind
    obtain ⟨operations, -, hu⟩ := hu.bind
    obtain rfl := hu.pure
    have hall : List.Forall₂ (fun id ms => (hostState run.tree checkpoints id).Gives ms)
        n.allStates (ms :: states) := by
      rw [ScriptNode.allStates, hd]
      exact .cons hms hstates.mapM
    have hnames := hostStates_names h.states hall
    rw [List.flatten_cons] at hnames
    rw [hnames, Script.handlerNames, List.map_flatMap]
    simp only [List.map_map]
    rfl

/-- The methods of the functions are those of some functions of the script. -/
theorem called_names : ∃ called : List String, called.Sublist (script.functions.map (·.name))
    ∧ u.functions.map (·.name) = called.map HostName.function := by
  have hfunctions := (hostUnit_members hu).functions.mapM
  refine ⟨((n.functions.filterMap run.tree.function?).filter (!·.references.isEmpty)).map (·.name),
    ?_, ?_⟩
  · have hnames : (n.functions.filterMap run.tree.function?).map (·.name)
        = script.functions.map (·.name) := by
      rw [h.functionIds, function_names fun x hx => ?_]
      · have hfst : script.functionNodes.map (·.1) = script.functions := by
          rw [Script.functionNodes, ← zip_numberFunctions]
          exact List.map_fst_zip (by simp)
        rw [← hfst, List.map_map]
        rfl
      · obtain ⟨f, -, hf, hname, -⟩ := h.functions x hx
        exact ⟨f, hf, hname⟩
    rw [← hnames]
    exact List.filter_sublist.map _
  · rw [List.map_map]
    exact hostFunctions_names hfunctions

end Run.Clean

/-- The default state apart, states differ in their names, and handlers of one state
in their events. -/
theorem Script.Apart.handlerNames (h : script.Apart)
    (hdefault : ∀ d ∈ script.defaultState, d.name = defaultStateName) : script.handlerNames.Nodup := by
  have hstates : (script.allStates.map (·.name)).Nodup := by
    rw [Script.allStates, List.map_append]
    cases hd : script.defaultState with
    | none => simpa using h.states
    | some d =>
      have hnew : d.name ∉ script.states.map (·.name) := hdefault d (by simp [hd]) ▸ h.named
      exact List.nodup_cons.mpr ⟨hnew, h.states⟩
  refine List.nodup_flatMap.mpr ⟨fun d hd => .of_map Prod.snd ?_, ?_⟩
  · rw [List.map_map]
    exact h.handlers d hd
  · refine (List.pairwise_map.mp hstates).imp fun hne p hp hq => hne ?_
    obtain ⟨e, -, rfl⟩ := List.mem_map.mp hp
    obtain ⟨e', -, heq⟩ := List.mem_map.mp hq
    exact (congrArg Prod.fst heq).symm

/-- Handlers that are told apart by state and event have different methods, unless
they overlap. -/
theorem nodup_handlers_iff {names : List (String × String)} :
    (names.map fun p => HostName.handler p.1 p.2).Nodup
      ↔ names.Nodup ∧ ∀ p ∈ names, ∀ q ∈ names, ¬ HostName.Overlap p.1 p.2 q.1 q.2 := by
  constructor
  · intro h
    refine ⟨h.of_map _, fun p hp q hq hoverlap => ?_⟩
    obtain rfl := List.inj_on_of_nodup_map h hp hq (HostName.handler_of_overlap hoverlap)
    exact HostName.not_overlap_self hoverlap
  · rintro ⟨hnodup, hnone⟩
    refine hnodup.map_on fun p hp q hq heq => ?_
    rcases HostName.handler_eq_iff.mp heq with ⟨hs, he⟩ | hoverlap | hoverlap
    · exact Prod.ext hs he
    · exact absurd hoverlap (hnone p hp q hq)
    · exact absurd hoverlap (hnone q hq p hp)

/-- **When the methods of a script have different names.** The methods of its
handlers are named after state and event, those of the functions that are called
after these, which are all different; so are the handlers, if the default state
has its fixed name. Then two methods have one name only if two handlers overlap,
or if a function mimics a handler. -/
theorem Script.method_names {options : CheckOptions} {c : CheckedScript} {settings : Settings}
    (h : script.check library options = .ok c) (hu : c.hostUnit settings = .ok u) :
    (u.defaultState ++ u.states.flatten).map (·.name)
        = script.handlerNames.map (fun p => HostName.handler p.1 p.2)
      ∧ ((∀ d ∈ script.defaultState, d.name = defaultStateName) → script.handlerNames.Nodup)
      ∧ ∃ called : List String, called.Sublist (script.functions.map (·.name)) ∧ called.Nodup
        ∧ u.functions.map (·.name) = called.map HostName.function
        ∧ ((u.methods.map (·.name)).Nodup ↔ script.handlerNames.Nodup
          ∧ (∀ p ∈ script.handlerNames, ∀ q ∈ script.handlerNames,
              ¬ HostName.Overlap p.1 p.2 q.1 q.2)
          ∧ ∀ f ∈ called, ∀ p ∈ script.handlerNames, ¬ HostName.Mimics f p.1 p.2) := by
  have hok := CheckedScript.hasErrors_of_hostUnit hu
  have hapart := Script.apart_of_check h hok
  obtain ⟨run, n, hclean, htree⟩ := Script.check_clean h hok
  have hu := hclean.gives_hostUnit htree hu
  have hhandlers := hclean.handler_names hu
  obtain ⟨called, hsublist, hfunctions⟩ := hclean.called_names hu
  have hcalled := hapart.functions.sublist hsublist
  refine ⟨hhandlers, hapart.handlerNames, called, hsublist, hcalled, hfunctions, ?_⟩
  have hperm : (u.methods.map (·.name)).Perm (called.map HostName.function
      ++ script.handlerNames.map fun p => HostName.handler p.1 p.2) := by
    rw [← hhandlers, ← hfunctions, ← List.map_append, HostUnit.methods, List.append_assoc]
    exact (List.perm_append_comm.append_left _).map _
  rw [hperm.nodup_iff, List.nodup_append', nodup_handlers_iff, and_assoc]
  have hdisjoint : (called.map HostName.function).Disjoint
        (script.handlerNames.map fun p => HostName.handler p.1 p.2)
      ↔ ∀ f ∈ called, ∀ p ∈ script.handlerNames, ¬ HostName.Mimics f p.1 p.2 := by
    simp only [List.Disjoint, List.mem_map, forall_exists_index, and_imp,
      forall_apply_eq_imp_iff₂, ← HostName.function_eq_handler_iff]
    grind
  rw [hdisjoint]
  simp [hcalled.map HostName.function_injective]

section Samples

open Build

/-- Two states, and a function that both call. -/
def Script.twoStates : Script :=
  { functions := [function .void "greet" [] [exprStmt (call "llOwnerSay" [string "hi"])]]
    defaultState := some (state defaultStateName
      [handler "state_entry" [] [exprStmt (call "greet" []), stateChange "other"]])
    states := [state "other" [handler "state_entry" [] [exprStmt (call "greet" [])],
      handler "state_exit" [] [exprStmt (call "llOwnerSay" [string "bye"])]]] }

theorem Script.twoStates_names : ∃ c u, Script.twoStates.check .standard { sortNotices := false } = .ok c
    ∧ c.hostUnit {} = .ok u
    ∧ (u.defaultState ++ u.states.flatten).map (·.name)
        = ["default_event_state_entry", "other_event_state_entry", "other_event_state_exit"]
    ∧ Script.twoStates.handlerNames.Nodup := by
  have hcheck : (Script.twoStates.check .standard { sortNotices := false }).toOption.any
      (fun c => (c.hostUnit {}).toOption.any fun _ => true) = true := by decide +kernel
  obtain ⟨c, u, hc, hu, -⟩ := Script.exists_hostUnit hcheck
  obtain ⟨hnames, hnodup, -⟩ := Script.method_names hc hu
  exact ⟨c, u, hc, hu, hnames.trans (by decide), hnodup (by decide)⟩

/-- A function is called as a handler's method is without its first letters. -/
def Script.mimicking : Script :=
  { functions := [function .void "a_event_state_entry" [] []]
    defaultState := some (state defaultStateName
      [handler "state_entry" [] [exprStmt (call "a_event_state_entry" [])]])
    states := [state "FN_a" [handler "state_entry" [] []]] }

/-- A function and a handler have methods of one name. -/
theorem Script.mimicking_collides :
    ∃ c u, Script.mimicking.check .standard { sortNotices := false } = .ok c
      ∧ (∀ m ∈ c.notices, m.isFault = false) ∧ c.hostUnit {} = .ok u
      ∧ ∃ f ∈ u.functions, ∃ m ∈ u.states.flatten, f.name = m.name := by
  have hcheck : (Script.mimicking.check .standard { sortNotices := false }).toOption.any
      (fun c => c.notices.all (!·.isFault) && (c.hostUnit {}).toOption.any fun u =>
        u.functions.any fun f => u.states.flatten.any (f.name == ·.name)) = true := by
    decide +kernel
  obtain ⟨c, hc, hP⟩ := exists_ok_of_any hcheck
  rw [Bool.and_eq_true] at hP
  obtain ⟨u, hu, hsame⟩ := exists_ok_of_any hP.2
  exact ⟨c, u, hc, by simpa using hP.1, hu, by simpa only [List.any_eq_true, beq_iff_eq] using hsame⟩

end Samples

end Lsl
