import Mustache.Proofs.Node.Interpret
import Mustache.Proofs.Render.Reach

/-! # Instructions that implement a tree

Instructions implement a list of nodes if they say the same in the same order: for each text that is not
empty a literal, for each section a call of a routine whose body implements its children. Where the
routine was compiled does not matter, nor do marks of indents. Instructions that implement a tree give
its text as long as nothing is called and lines have no indent.
-/
namespace Mustache

/-- The instructions say what the nodes say. -/
inductive Implements : List Instruction → List Node → Prop
  | nil : Implements [] []
  | empty {is : List Instruction} {ns : List Node} :
      Implements is ns → Implements is (.text "" :: ns)
  | comment {is : List Instruction} {ns : List Node} :
      Implements is ns → Implements is (.comment :: ns)
  | text {is : List Instruction} {ns : List Node} {s : String} {indent : Bool} :
      Implements is ns → Implements (.literal s indent :: is) (.text s :: ns)
  | interpolation {is : List Instruction} {ns : List Node} {name : String} {escape indent : Bool} :
      Implements is ns →
      Implements (.interpolate (.ofName name) name escape indent :: is)
        (.interpolation name escape :: ns)
  | sectionBlock {is body : List Instruction} {ns children : List Node} {name key source : String}
      {tag : Option String} {inline : Bool} {start stop : Int} {delimiters : Delimiters} :
      Implements body children → Implements is ns →
      Implements (.callSection ⟨key, source, tag, body⟩ (.ofName name) name inline :: is)
        (.sectionBlock name start stop delimiters children :: ns)
  | invertedBlock {is body : List Instruction} {ns children : List Node} {name : String} :
      Implements body children → Implements is ns →
      Implements (.callInverted (.ofName name) name body :: is) (.invertedBlock name children :: ns)

namespace Implements

variable {is js : List Instruction} {ns ms : List Node}

theorem congr (h : Implements is ns) (hms : Node.unplaced ns = Node.unplaced ms) :
    Implements is ms := by
  induction h generalizing ms with
  | nil =>
    cases ms with
    | nil => exact .nil
    | cons m ms => simp [Node.unplaced] at hms
  | empty _ ih =>
    obtain ⟨m, ms, rfl, hm, hrest⟩ := Node.exists_of_unplaced_cons hms
    rw [Node.eq_of_unplacedOne hm rfl]
    exact .empty (ih hrest)
  | comment _ ih =>
    obtain ⟨m, ms, rfl, hm, hrest⟩ := Node.exists_of_unplaced_cons hms
    rw [Node.eq_of_unplacedOne hm rfl]
    exact .comment (ih hrest)
  | text _ ih =>
    obtain ⟨m, ms, rfl, hm, hrest⟩ := Node.exists_of_unplaced_cons hms
    rw [Node.eq_of_unplacedOne hm rfl]
    exact .text (ih hrest)
  | interpolation _ ih =>
    obtain ⟨m, ms, rfl, hm, hrest⟩ := Node.exists_of_unplaced_cons hms
    rw [Node.eq_of_unplacedOne hm rfl]
    exact .interpolation (ih hrest)
  | sectionBlock _ _ ihbody ih =>
    obtain ⟨m, ms, rfl, hm, hrest⟩ := Node.exists_of_unplaced_cons hms
    obtain ⟨start, stop, children, rfl, hchildren⟩ := Node.eq_of_unplacedOne_section hm
    exact .sectionBlock (ihbody hchildren) (ih hrest)
  | invertedBlock _ _ ihbody ih =>
    obtain ⟨m, ms, rfl, hm, hrest⟩ := Node.exists_of_unplaced_cons hms
    obtain ⟨children, rfl, hchildren⟩ := Node.eq_of_unplacedOne_inverted hm
    exact .invertedBlock (ihbody hchildren) (ih hrest)

theorem append (h : Implements is ns) (h' : Implements js ms) :
    Implements (is ++ js) (ns ++ ms) := by
  induction h with
  | nil => exact h'
  | empty _ ih => exact .empty ih
  | comment _ ih => exact .comment ih
  | text _ ih => exact .text ih
  | interpolation _ ih => exact .interpolation ih
  | sectionBlock hbody _ _ ih => exact .sectionBlock hbody ih
  | invertedBlock hbody _ _ ih => exact .invertedBlock hbody ih

end Implements

namespace Node

theorem interpret_cons_of_pure {escaper : Escaper} {n : Node}
    (h : interpretOne escaper n = pure "") (ns : List Node) :
    interpret escaper (n :: ns) = interpret escaper ns := by
  have hfun : (fun rest => pure ("" ++ rest) : String → RenderM String) = pure :=
    funext fun rest => by rw [String.empty_append]
  rw [interpret, h, pure_bind, hfun, bind_pure]

end Node

namespace Surroundings
open RenderM RenderState

variable {sur : Surroundings} {s : RenderState} {keys : List String}

theorem text_literal (hindent : sur.indent = "") (text : String) (indent carried : Bool) :
    (sur.literal text indent carried).text = text := by
  cases indent <;> cases carried <;> simp [literal, lead, hindent]

theorem text_lead (hindent : sur.indent = "") (text : String) (indent carried : Bool) :
    (sur.lead indent carried text).text = text := by
  cases indent <;> cases carried <;> simp [lead, hindent]

section Loops

variable {body : Bool → RenderM Output} {y : RenderM String} {v : Value}

theorem agrees_withScope (hv : s.Reachable keys v)
    (hb : ∀ carried, Agrees (s.Within keys) Output.text (body carried) y) (carried : Bool) :
    Agrees (s.Within keys) Output.text (withScope v (body carried)) (withScope v y) :=
  Agrees.withScope (fun _ ht => ht.push hv) (fun _ ht => ht.drop) (hb carried)

theorem agrees_runEach {items : List Value} (hitems : ∀ v ∈ items, s.Reachable keys v)
    (hb : ∀ carried, Agrees (s.Within keys) Output.text (body carried) y) (carried : Bool) :
    Agrees (s.Within keys) Output.text (runEach body items carried) (Node.forEach items y) := by
  induction items generalizing carried with
  | nil =>
    rw [runEach, Node.forEach_nil]
    exact agrees_pure Output.text _
  | cons v vs ih =>
    rw [runEach, Node.forEach_cons]
    refine (agrees_withScope (hitems v List.mem_cons_self) hb carried).bind fun first => ?_
    refine (ih (fun w hw => hitems w (List.mem_cons_of_mem v hw)) first.carried).bind fun rest => ?_
    exact agrees_pure Output.text _

theorem join_map_empty {α : Type} (items : List α) : String.join (items.map fun _ => "") = "" := by
  induction items with
  | nil => rfl
  | cons v vs ih => rw [List.map_cons, String.join_cons, ih, String.empty_append]

theorem run_mapM_forNext {id : Nat} {t : RenderState} (h : t.store.next? id = none)
    (items : List Value) :
    (String.join <$> items.mapM fun _ => Node.forNext id y).run t = (.ok "", t) := by
  have hone : (Node.forNext id y).run t = (.ok "", t) := by
    rw [Node.forNext, run_bind, run_takeNext, h]
    rfl
  have hall : (items.mapM fun _ => Node.forNext id y).run t = (.ok (items.map fun _ => ""), t) := by
    induction items with
    | nil => rfl
    | cons v vs ih =>
      rw [List.mapM_cons, run_bind, hone]
      simp only
      rw [run_bind, ih]
      rfl
  rw [run_map, hall]
  exact congrArg (fun text => (Except.ok text, t)) (join_map_empty items)

theorem agrees_drain {id : Nat} (hgiven : ∀ v ∈ s.store.remaining id, s.Reachable keys v)
    (hb : ∀ carried, Agrees (s.Within keys) Output.text (body carried) y) (items : List Value)
    (carried : Bool) :
    Agrees (s.Within keys) Output.text (drain body id items.length carried)
      (String.join <$> items.mapM fun _ => Node.forNext id y) := by
  induction items generalizing carried with
  | nil => exact agrees_pure Output.text _
  | cons v vs ih =>
    intro t ht
    have hmap : (String.join <$> (v :: vs).mapM fun _ => Node.forNext id y) = (do
        let first ← Node.forNext id y
        let rest ← String.join <$> vs.mapM fun _ => Node.forNext id y
        return first ++ rest) := by
      simp [List.mapM_cons]
    cases hnext : t.store.next? id with
    | none =>
      rw [run_mapM_forNext hnext, List.length_cons, drain, run_bind, run_takeNext, hnext]
      exact ⟨rfl, ht⟩
    | some r =>
      obtain ⟨w, store⟩ := r
      obtain ⟨ht', hw, -⟩ := ht.takeNext hnext
      have hrun : (Node.forNext id y).run t = (withScope w y).run { t with store } := by
        rw [Node.forNext, run_bind, run_takeNext, hnext]
      have hstep : Agrees (s.Within keys) Output.text
          (do let first ← withScope w (body carried)
              let rest ← drain body id vs.length first.carried
              return ⟨first.text ++ rest.text, rest.carried⟩)
          (do let first ← withScope w y
              let rest ← String.join <$> vs.mapM fun _ => Node.forNext id y
              return first ++ rest) := by
        refine (agrees_withScope (hgiven w hw) hb carried).bind fun first => ?_
        exact (ih first.carried).bind fun rest => agrees_pure Output.text _
      rw [hmap, List.length_cons, drain, run_bind, run_bind, run_takeNext, hnext, hrun, ← run_bind]
      exact hstep _ ht'

theorem agrees_runOver (hv : s.Reachable keys v)
    (hset : ∀ id items, v.iteration = .members id items → s.store.sets[id]?.getD items = items)
    (hb : ∀ carried, Agrees (s.Within keys) Output.text (body carried) y) (carried : Bool) :
    Agrees (s.Within keys) Output.text (runOver v body carried) (Node.overValue v y) := by
  unfold runOver Node.overValue
  cases htruth : v.truth with
  | false => exact agrees_pure Output.text _
  | true =>
    simp only [Bool.not_true, Bool.false_eq_true, if_false, if_true]
    cases hiter : v.iteration with
    | once => exact agrees_withScope hv hb carried
    | each items => exact agrees_runEach (fun w hw => .element hv hiter hw) hb carried
    | members id items =>
      refine agrees_runEach (fun w hw => .setElement hv hiter hw) (fun c => ?_) carried
      -- The set has the size it was found with, since nothing changes a set.
      have hcheck : ∀ t, s.Within keys t → (checkSize id items).run t = (.ok (), t) := by
        intro t ht
        rw [checkSize, run_bind, run_get]
        simp only [ht.sets, hset id items hiter, ne_eq, not_true_eq_false, if_false]
        rfl
      intro t ht
      obtain ⟨hy, hP⟩ := hb c t ht
      have hrun : (body c <* checkSize id items).run t = (body c).run t := by
        change (body c >>= fun out => checkSize id items >>= fun _ => pure out).run t = _
        rw [run_bind]
        rcases hx : (body c).run t with ⟨out | out, t'⟩
        · rfl
        · rw [hx] at hP
          simp only
          rw [run_bind, hcheck t' hP]
          rfl
      rw [hrun]
      exact ⟨hy, hP⟩
    | drain id =>
      intro t ht
      have hlist : ∀ w ∈ s.store.remaining id, s.Reachable keys w := fun w hw => .given hv hiter hw
      simp only
      rw [Node.forGiven, run_bind, run_bind, run_get]
      exact agrees_drain hlist hb (t.store.remaining id) carried t ht

end Loops

theorem call?_of_not_isLambda {v : Value} (h : v.isLambda = false) : v.call? = none := by
  rw [← Value.isSome_call?] at h
  exact Option.not_isSome_iff_eq_none.mp (by rw [h]; exact Bool.false_ne_true)

theorem variableText_of_not_isLambda {v : Value} (h : v.isLambda = false) :
    sur.variableText v = pure v.rendered := by
  rw [variableText, call?_of_not_isLambda h]

theorem agrees_cons {P : RenderState → Prop} {i : Instruction} {is : List Instruction} {n : Node}
    {ns : List Node} {carried : Bool}
    (hfirst : Agrees P Output.text (sur.runOne i carried) (Node.interpretOne sur.escaper n))
    (hrest : ∀ c, Agrees P Output.text (sur.runAll is c) (Node.interpret sur.escaper ns)) :
    Agrees P Output.text (sur.runAll (i :: is) carried) (Node.interpret sur.escaper (n :: ns)) := by
  rw [runAll, Node.interpret]
  refine hfirst.bind fun first => ?_
  exact (hrest first.carried).bind fun rest => agrees_pure Output.text _

theorem agrees_literal (hindent : sur.indent = "") (text : String) (indent carried : Bool) :
    Agrees (s.Within keys) Output.text (sur.runOne (.literal text indent) carried)
      (Node.interpretOne sur.escaper (.text text)) := by
  have h : Agrees (s.Within keys) Output.text (pure (sur.literal text indent carried)) (pure _) :=
    agrees_pure Output.text _
  rw [text_literal hindent] at h
  rw [runOne, Node.interpretOne]
  exact h

theorem agrees_interpolate (hindent : sur.indent = "") (hcalls : s.CallFree keys) {name : String}
    (hkeys : ∀ key ∈ Node.keysOf name, key ∈ keys) (escape indent carried : Bool) :
    Agrees (s.Within keys) Output.text
      (sur.runOne (.interpolate (.ofName name) name escape indent) carried)
      (Node.interpretOne sur.escaper (.interpolation name escape)) := by
  have hlead : ∀ text, Agrees (s.Within keys) Output.text (pure (sur.lead indent carried text))
      (pure text) := by
    intro text
    have h : Agrees (s.Within keys) Output.text (pure (sur.lead indent carried text)) (pure _) :=
      agrees_pure Output.text _
    rw [text_lead hindent] at h
    exact h
  rw [runOne, Node.interpretOne]
  refine agrees_resolve_bind fun t ht => ?_
  rw [variableText_of_not_isLambda (hcalls _ (ht.reachable_resolve hkeys)), pure_bind]
  cases escape with
  | false =>
    simp only [Bool.false_eq_true, if_false, pure_bind]
    exact hlead _
  | true =>
    simp only [if_true]
    rw [← bind_pure (lift _ _)]
    refine Agrees.bind ?_ hlead
    rw [bind_pure]
    exact agrees_lift _ _

theorem agrees_callSection (hcalls : s.CallFree keys) {name : String}
    (hkeys : ∀ key ∈ Node.keysOf name, key ∈ keys) {body : List Instruction} {children : List Node}
    (hbody : ∀ c, Agrees (s.Within keys) Output.text (sur.inBody.runAll body c)
      (Node.interpret sur.escaper children))
    (key source : String) (tag : Option String) (inline carried : Bool) (start stop : Int)
    (delimiters : Delimiters) :
    Agrees (s.Within keys) Output.text
      (sur.runOne (.callSection ⟨key, source, tag, body⟩ (.ofName name) name inline) carried)
      (Node.interpretOne sur.escaper (.sectionBlock name start stop delimiters children)) := by
  rw [runOne, Node.interpretOne]
  refine agrees_resolve_bind fun t ht => ?_
  have hv := ht.reachable_resolve hkeys
  simp only [call?_of_not_isLambda (hcalls _ hv)]
  refine agrees_runOver hv (fun id items hiter => ?_) hbody carried
  rw [← ht.sets]
  exact items_of_current hiter

theorem agrees_callInverted {name : String} {body : List Instruction} {children : List Node}
    (hbody : ∀ c, Agrees (s.Within keys) Output.text (sur.inBody.runAll body c)
      (Node.interpret sur.escaper children)) (carried : Bool) :
    Agrees (s.Within keys) Output.text (sur.runOne (.callInverted (.ofName name) name body) carried)
      (Node.interpretOne sur.escaper (.invertedBlock name children)) := by
  rw [runOne, Node.interpretOne]
  refine agrees_resolve_bind fun t ht => ?_
  cases (t.store.current (t.context.resolve (.ofName name) name)).truth with
  | true => exact agrees_pure Output.text _
  | false => exact hbody carried

/-- Instructions agree with the nodes they implement, by induction on why they do. -/
theorem agrees_runAll {sur : Surroundings} (hindent : sur.indent = "") (hcalls : s.CallFree keys)
    {is : List Instruction} {ns : List Node} (h : Implements is ns)
    (hkeys : ∀ n ∈ Node.subnodes ns, ∀ key ∈ n.keys, key ∈ keys) (carried : Bool) :
    Agrees (s.Within keys) Output.text (sur.runAll is carried) (Node.interpret sur.escaper ns) := by
  induction h generalizing sur carried with
  | nil =>
    rw [runAll, Node.interpret]
    exact agrees_pure Output.text _
  | empty _ ih =>
    rw [Node.interpret_cons_of_pure (by rw [Node.interpretOne])]
    exact ih hindent (fun n hn => hkeys n (List.mem_append_right _ hn)) carried
  | comment _ ih =>
    rw [Node.interpret_cons_of_pure (by rw [Node.interpretOne])]
    exact ih hindent (fun n hn => hkeys n (List.mem_append_right _ hn)) carried
  | text _ ih =>
    have hrest := ih hindent fun n hn => hkeys n (List.mem_append_right _ hn)
    exact agrees_cons (agrees_literal hindent _ _ _) hrest
  | interpolation _ ih =>
    have hrest := ih hindent fun n hn => hkeys n (List.mem_append_right _ hn)
    have hname := hkeys _ (List.mem_append_left _ (Node.mem_subnodesOne_self _))
    exact agrees_cons (agrees_interpolate hindent hcalls hname _ _ _) hrest
  | sectionBlock _ _ ihbody ih =>
    have hrest := ih hindent fun n hn => hkeys n (List.mem_append_right _ hn)
    have hname := hkeys _ (List.mem_append_left _ (Node.mem_subnodesOne_self _))
    have hbody := @ihbody sur.inBody hindent fun n hn =>
      hkeys n (List.mem_append_left _ (List.mem_cons_of_mem _ hn))
    exact agrees_cons (agrees_callSection hcalls hname hbody _ _ _ _ _ _ _ _) hrest
  | invertedBlock _ _ ihbody ih =>
    have hrest := ih hindent fun n hn => hkeys n (List.mem_append_right _ hn)
    have hbody := @ihbody sur.inBody hindent fun n hn =>
      hkeys n (List.mem_append_left _ (List.mem_cons_of_mem _ hn))
    exact agrees_cons (agrees_callInverted hbody _) hrest

theorem run_text_runAll (hindent : sur.indent = "") (hcalls : s.CallFree keys)
    {is : List Instruction} {ns : List Node} (h : Implements is ns)
    (hkeys : ∀ n ∈ Node.subnodes ns, ∀ key ∈ n.keys, key ∈ keys) :
    (sur.runAll is false >>= fun out => pure out.text).run s =
      (Node.interpret sur.escaper ns).run s := by
  have hrun := agrees_runAll hindent hcalls h hkeys false s (within_self s keys)
  rw [hrun.1, run_bind]
  rcases (sur.runAll is false).run s with ⟨out | out, t⟩
  · rfl
  · rfl

end Surroundings

theorem Program.run_render_of_implements {p : Program} {tree : List Node} {s : RenderState}
    (h : Implements p.instructions tree) (templates : Templates) (escaper : Escaper)
    (hcalls : s.CallFree (Node.keysIn tree)) :
    (p.render templates escaper "" false).run s = (Node.interpret escaper tree).run s := by
  obtain ⟨sur, rfl, hindent, hrun⟩ := p.exists_run_render templates escaper "" s
  rw [hrun]
  exact Surroundings.run_text_runAll hindent hcalls h fun n hn => Node.keys_subset_keysIn hn

end Mustache
