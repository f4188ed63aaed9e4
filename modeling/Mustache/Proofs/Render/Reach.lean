import Mustache.Proofs.Node.Subnodes
import Mustache.Proofs.Render.Agree

/-! # The values that a rendering can reach

A rendering that only asks for some keys sees no values but those that it reaches from its scopes by
these keys and by running over elements. As long as none of them is called, the sets stay as they are
and the iterators give no more than they held, so a rendering stays within what its first state reaches.
-/
namespace Mustache

namespace Value

mutual

/-- Texts, numbers, truth values and what is built from them; iterators count by what they give. -/
def isData : Value → Bool
  | null | bool _ | int _ | float _ | text _ | bytes _ | iterator _ => true
  | list items | tuple items => allData items
  | map entries => entriesData entries
  | set _ _ | moment _ | duration _ | zone _ | lambda _ | setMethod _ _ _ | object _ _ _ _ => false

def allData : List Value → Bool
  | [] => true
  | v :: vs => isData v && allData vs

def entriesData : List (Value × Value) → Bool
  | [] => true
  | (_, v) :: rest => isData v && entriesData rest

end

theorem isData_of_mem {v : Value} {items : List Value} (h : allData items = true) (hv : v ∈ items) :
    v.isData = true := by
  induction items with
  | nil => cases hv
  | cons w ws ih =>
    rw [allData, Bool.and_eq_true] at h
    rcases List.mem_cons.mp hv with rfl | hv
    · exact h.1
    · exact ih h.2 hv

theorem isData_of_mem_entries {entry : Value × Value} {entries : List (Value × Value)}
    (h : entriesData entries = true) (hentry : entry ∈ entries) : entry.2.isData = true := by
  induction entries with
  | nil => cases hentry
  | cons e es ih =>
    rw [entriesData, Bool.and_eq_true] at h
    rcases List.mem_cons.mp hentry with rfl | hentry
    · exact h.1
    · exact ih h.2 hentry

theorem isData_of_member? {v w : Value} {name : String} (hv : v.isData = true)
    (h : v.member? name = some w) : w.isData = true := by
  have helement : ∀ items, allData items = true → element? items name = some w →
      w.isData = true := by
    intro items hitems hw
    unfold element? at hw
    simp only at hw
    split at hw
    · cases hw
    · exact isData_of_mem hitems (List.mem_of_getElem? hw)
  cases v with
  | list items => exact helement items hv h
  | tuple items => exact helement items hv h
  | map entries =>
    obtain ⟨entry, hentry, hw⟩ := Option.map_eq_some_iff.mp h
    rw [← hw]
    exact isData_of_mem_entries hv (List.mem_of_find?_eq_some hentry)
  | moment _ | duration _ | zone _ | set _ _ | object _ _ _ _ => cases hv
  | _ => cases h

end Value

def Lookup.keys (lookup : Lookup) (name : String) : List String :=
  match lookup with
  | innermost => []
  | nearest => [name]
  | path => Context.pathParts name

namespace RenderState

/-- The values that can be reached from the scopes of a state by asking for some keys. -/
inductive Reachable (s : RenderState) (keys : List String) : Value → Prop
  | missing : Reachable s keys .null
  | scope {v : Value} : v ∈ s.context.scopes → Reachable s keys v
  | member {v w : Value} {key : String} :
      Reachable s keys v → key ∈ keys → v.member? key = some w → Reachable s keys w
  | element {v w : Value} {items : List Value} :
      Reachable s keys v → v.iteration = .each items → w ∈ items → Reachable s keys w
  | setElement {v w : Value} {id : Nat} {items : List Value} :
      Reachable s keys v → v.iteration = .members id items → w ∈ items → Reachable s keys w
  | given {v w : Value} {id : Nat} :
      Reachable s keys v → v.iteration = .drain id → w ∈ s.store.remaining id → Reachable s keys w
  | current {v : Value} : Reachable s keys v → Reachable s keys (s.store.current v)

def CallFree (s : RenderState) (keys : List String) : Prop :=
  ∀ v, s.Reachable keys v → v.isLambda = false

/-- A state of a rendering that started in `s` and has called nothing. -/
structure Within (s : RenderState) (keys : List String) (t : RenderState) : Prop where
  scopes : ∀ v ∈ t.context.scopes, s.Reachable keys v
  sets : t.store.sets = s.store.sets
  remaining : ∀ id, ∀ v ∈ t.store.remaining id, v ∈ s.store.remaining id

theorem Reachable.mono {s : RenderState} {keys keys' : List String} (hkeys : keys ⊆ keys') {v : Value}
    (h : s.Reachable keys v) : s.Reachable keys' v := by
  induction h with
  | missing => exact .missing
  | scope hv => exact .scope hv
  | member _ hkey hw ih => exact .member ih (hkeys hkey) hw
  | element _ hiter hw ih => exact .element ih hiter hw
  | setElement _ hiter hw ih => exact .setElement ih hiter hw
  | given _ hiter hw ih => exact .given ih hiter hw
  | current _ ih => exact .current ih

theorem CallFree.mono {s : RenderState} {keys keys' : List String} (hkeys : keys ⊆ keys')
    (h : s.CallFree keys') : s.CallFree keys :=
  fun v hv => h v (hv.mono hkeys)

def onData (data : Value) : RenderState :=
  ⟨.ofData data Context.standardLimit, {}, []⟩

theorem callFree_of_data {s : RenderState} (hscopes : ∀ v ∈ s.context.scopes, v.isData = true)
    (hgiven : ∀ id, ∀ v ∈ s.store.remaining id, v.isData = true) (hsets : s.store.sets = [])
    (keys : List String) : s.CallFree keys := by
  have hdata : ∀ v, s.Reachable keys v → v.isData = true := by
    intro v hv
    induction hv with
    | missing => rfl
    | scope hv => exact hscopes _ hv
    | member _ _ hw ih => exact Value.isData_of_member? ih hw
    | @element v w items _ hiter hw ih =>
      cases v with
      | list items' | tuple items' =>
        cases hiter
        exact Value.isData_of_mem ih hw
      | object _ _ _ _ => cases ih
      | _ => cases hiter
    | @setElement v w id items _ hiter hw ih =>
      cases v with
      | set _ _ | object _ _ _ _ => cases ih
      | _ => cases hiter
    | given _ _ hw _ => exact hgiven _ _ hw
    | current _ ih =>
      unfold Store.current
      rw [hsets]
      exact ih
  intro v hv
  have hd := hdata v hv
  cases v with
  | lambda _ | setMethod _ _ _ => cases hd
  | _ => rfl

theorem callFree_onData {data : Value} (h : data.isData = true) (keys : List String) :
    (onData data).CallFree keys := by
  refine callFree_of_data ?_ (fun _ v hv => absurd hv List.not_mem_nil) rfl keys
  intro v hv
  cases data with
  | null => cases hv
  | _ =>
    obtain rfl := List.mem_singleton.mp hv
    exact h

variable {s t : RenderState} {keys : List String}

theorem within_self (s : RenderState) (keys : List String) : s.Within keys s where
  scopes _ hv := .scope hv
  sets := rfl
  remaining _ _ hv := hv

theorem Within.mono {keys' : List String} (hkeys : keys ⊆ keys') (ht : s.Within keys t) :
    s.Within keys' t where
  scopes v hv := (ht.scopes v hv).mono hkeys
  sets := ht.sets
  remaining := ht.remaining

theorem Within.push (ht : s.Within keys t) {v : Value} (hv : s.Reachable keys v) :
    s.Within keys { t with context := t.context.push v } where
  scopes w hw := by
    rcases List.mem_cons.mp hw with rfl | hw
    · exact hv
    · exact ht.scopes w hw
  sets := ht.sets
  remaining := ht.remaining

theorem Within.drop (ht : s.Within keys t) :
    s.Within keys { t with context := t.context.drop } where
  scopes w hw := ht.scopes w (List.mem_of_mem_tail hw)
  sets := ht.sets
  remaining := ht.remaining

theorem Within.current_eq (ht : s.Within keys t) (v : Value) :
    t.store.current v = s.store.current v := by
  unfold Store.current
  rw [ht.sets]

theorem Within.takeNext (ht : s.Within keys t) {id : Nat} {v : Value} {store : Store}
    (h : t.store.next? id = some (v, store)) :
    s.Within keys { t with store } ∧ v ∈ s.store.remaining id ∧
      (t.store.remaining id).length = (store.remaining id).length + 1 := by
  obtain ⟨hrest, hothers⟩ := Store.remaining_of_next? h
  refine ⟨⟨ht.scopes, (Store.sets_of_next? h).trans ht.sets, fun other w hw => ?_⟩, ?_, ?_⟩
  · apply ht.remaining other
    by_cases heq : other = id
    · rw [heq] at hw ⊢
      rw [hrest]
      exact List.mem_cons_of_mem _ hw
    · rw [← hothers other heq]
      exact hw
  · apply ht.remaining id
    rw [hrest]
    exact List.mem_cons_self
  · rw [hrest, List.length_cons]

theorem reachable_foldlM {root v : Value} (hroot : s.Reachable keys root) (path : List String)
    (hpath : ∀ key ∈ path, key ∈ keys) (h : path.foldlM Value.member? root = some v) :
    s.Reachable keys v := by
  induction path generalizing root with
  | nil =>
    rw [List.foldlM_nil] at h
    rw [← Option.some.inj h]
    exact hroot
  | cons key path ih =>
    rw [List.foldlM_cons] at h
    obtain ⟨w, hw, hv⟩ := Option.bind_eq_some_iff.mp h
    have hw' : s.Reachable keys w := .member hroot (hpath key List.mem_cons_self) hw
    exact ih hw' (fun k hk => hpath k (List.mem_cons_of_mem key hk)) hv

theorem Within.reachable_lookup (ht : s.Within keys t) {lookup : Lookup} {name : String}
    (hkeys : ∀ key ∈ lookup.keys name, key ∈ keys) :
    s.Reachable keys (t.store.current (t.context.resolve lookup name)) := by
  rw [ht.current_eq]
  apply Reachable.current
  cases lookup with
  | innermost =>
    rw [Context.resolve, Context.innermost]
    cases hs : t.context.scopes with
    | nil => exact .missing
    | cons v vs =>
      apply ht.scopes
      rw [hs]
      exact List.mem_cons_self
  | nearest =>
    rw [Context.resolve, Context.nearest]
    cases hf : t.context.scopes.findSome? (·.member? name) with
    | none => exact .missing
    | some w =>
      obtain ⟨v, hv, hw⟩ := List.exists_of_findSome?_eq_some hf
      exact .member (ht.scopes v hv) (hkeys name (List.mem_singleton_self name)) hw
  | path =>
    rw [Context.resolve, Context.alongPath]
    cases hr : t.context.scopes.getLast? with
    | none => exact .missing
    | some root =>
      have hroot := ht.scopes root (List.mem_of_getLast? hr)
      cases hv : (Context.pathParts name).foldlM Value.member? root with
      | none =>
        rw [Option.bind_some, hv]
        exact .missing
      | some v =>
        rw [Option.bind_some, hv]
        exact reachable_foldlM hroot _ hkeys hv

theorem Within.reachable_resolve (ht : s.Within keys t) {name : String}
    (hkeys : ∀ key ∈ Node.keysOf name, key ∈ keys) :
    s.Reachable keys (t.store.current (t.context.resolve (.ofName name) name)) :=
  ht.reachable_lookup fun key hkey => hkeys key hkey

theorem items_of_current {store : Store} {v : Value} {id : Nat} {items : List Value}
    (h : (store.current v).iteration = .members id items) : store.sets[id]?.getD items = items := by
  have hiter : ∀ w : Value, w.iteration = .members id items → w = .set id items := by
    intro w hw
    cases w with
    | set id' items' =>
      simp only [Value.iteration, Value.Iteration.members.injEq] at hw
      rw [hw.1, hw.2]
    | object label attributes truth items' => cases items' <;> simp [Value.iteration] at hw
    | _ => simp [Value.iteration] at hw
  have hset := hiter _ h
  unfold Store.current at hset
  split at hset
  · rename_i hempty
    rw [List.isEmpty_iff.mp hempty]
    rfl
  · cases v with
    | set id' items' =>
      simp only [Value.current, Value.set.injEq] at hset
      obtain ⟨rfl, hitems⟩ := hset
      cases hg : store.sets[id']? with
      | none => rfl
      | some l =>
        rw [hg] at hitems
        exact hitems
    | _ => simp [Value.current] at hset

end RenderState
end Mustache
