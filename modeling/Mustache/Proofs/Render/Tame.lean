import Mustache.Proofs.Render.Failures
import Mustache.Proofs.Render.Reach

/-! # Data that is tame

Calls are the one thing in data that can fail with an error of its own, and that of a set's method is a
failed look-up if the set lacks an element. Data without sets, whose lambdas fail otherwise if at all, is
tame: days and times may be in it, although they have methods, which names find.
-/
namespace Mustache

/-- The errors of failed look-ups. Lambdas may raise any error, so that of a lambda counts. -/
def CallError.isLookup : CallError → Bool
  | noElement _ | raised _ => true
  | _ => false

@[simp] theorem CallError.isLookup_eq_false {e : CallError} (helement : ∀ shown, e ≠ .noElement shown)
    (hraised : ∀ message, e ≠ .raised message) : e.isLookup = false := by
  cases e with
  | noElement shown => exact absurd rfl (helement shown)
  | raised message => exact absurd rfl (hraised message)
  | _ => rfl

def RenderError.isLookup : RenderError → Bool
  | unescapable _ => true
  | callFailed e => e.isLookup
  | _ => false

/-- A call, if there is one, changes no set and fails with no error of a look-up. -/
def Value.Tame (v : Value) : Prop :=
  ∀ call argument, v.call? = some call →
    (∀ a, call argument = .ok a → a.change = none) ∧ ∀ e, call argument = .error e → e.isLookup = false

def RenderState.Tame (s : RenderState) : Prop :=
  ∀ keys v, s.Reachable keys v → v.Tame

theorem RenderState.tame_of_callFree {s : RenderState} (h : ∀ keys, s.CallFree keys) : s.Tame := by
  intro keys v hv call argument hcall
  have hlambda := h keys v hv
  rw [← v.isSome_call?, hcall] at hlambda
  cases hlambda

namespace MomentMember

def Tame (member : MomentMember) : Prop :=
  ∀ call, member = .method call → ∀ argument e, call argument = .error e → e.isLookup = false

@[simp] theorem tame_number (n : Int) : (number n).Tame := nofun

@[simp] theorem tame_moment (m : Moment) : (moment m).Tame := nofun

@[simp] theorem tame_duration (d : Duration) : (duration d).Tame := nofun

@[simp] theorem tame_zone (z : Option Zone) : (zone z).Tame := nofun

@[simp] theorem tame_method_iff {call : Option String → Except CallError String} : (method call).Tame ↔
    (∀ e, call none = .error e → e.isLookup = false) ∧
      ∀ text e, call (some text) = .error e → e.isLookup = false := by
  constructor
  · exact fun h => ⟨h call rfl none, fun text => h call rfl (some text)⟩
  · rintro ⟨hnone, hsome⟩ _ ⟨⟩ argument
    cases argument with
    | none => exact hnone
    | some text => exact hsome text

theorem isLookup_of_mapError {α : Type} {r : Except MomentError α} {e : CallError}
    (h : r.mapError .noMoment = .error e) : e.isLookup = false := by
  cases r with
  | ok a => cases h
  | error m =>
    cases h
    rfl

@[simp] theorem tame_plain (kind name : String) (result : Except MomentError String) :
    (plain kind name result).Tame := by
  refine tame_method_iff.mpr ⟨fun e he => isLookup_of_mapError he, fun text e he => ?_⟩
  cases he
  rfl

@[simp] theorem tame_single_iff {kind name : String} {result : String → Except CallError String} :
    (single kind name result).Tame ↔ ∀ text e, result text = .error e → e.isLookup = false := by
  simp [single]

@[simp] theorem tame_optional_iff {result : Except CallError String} {refused : CallError} :
    (optional result refused).Tame ↔
      (∀ e, result = .error e → e.isLookup = false) ∧ refused.isLookup = false := by
  simp [optional]

@[simp] theorem tame_refusing_iff {without withText : CallError} :
    (refusing without withText).Tame ↔ without.isLookup = false ∧ withText.isLookup = false := by
  simp [refusing]

end MomentMember

open MomentMember

theorem Moment.isLookup_of_ofStandard {withClock : Bool} {text : String} {e : CallError}
    (h : (ofStandard withClock text).map display = .error e) : e.isLookup = false := by
  rw [map_eq_error_iff, ofStandard] at h
  simp only at h
  split at h
  · cases h
    rfl
  · exact isLookup_of_mapError h

section Members

variable {name : String} {member : MomentMember}

theorem Moment.tame_of_commonMember? {m : Moment} (h : m.commonMember? name = some member) :
    member.Tame := by
  unfold commonMember? at h
  simp only at h
  split at h
  all_goals cases h
  all_goals try simp
  -- a text in standard form
  exact fun text e => isLookup_of_ofStandard

theorem Moment.tame_of_dayMember? {m : Moment} (h : m.dayMember? name = some member) : member.Tame := by
  unfold dayMember? at h
  split at h
  all_goals cases h
  all_goals simp

theorem Moment.tame_of_clockMember? {m : Moment} {c : Clock} (h : m.clockMember? c name = some member) :
    member.Tame := by
  unfold clockMember? at h
  simp only at h
  split at h
  all_goals cases h
  all_goals try simp
  · exact fun e => isLookup_of_mapError
  · intro text e he
    split at he
    · cases he
    · cases he
      rfl

theorem Moment.tame_of_member? {m : Moment} (h : m.member? name = some member) : member.Tame := by
  unfold member? at h
  rcases Option.or_eq_some_iff.mp h with h | ⟨-, h⟩
  · exact tame_of_commonMember? h
  · split at h
    · exact tame_of_dayMember? h
    · exact tame_of_clockMember? h

theorem Duration.tame_of_member? {d : Duration} (h : d.member? name = some member) : member.Tame := by
  unfold member? at h
  split at h
  all_goals cases h
  all_goals simp

theorem Zone.tame_of_member? {z : Zone} (h : z.member? name = some member) : member.Tame := by
  unfold member? at h
  split at h
  all_goals cases h
  all_goals simp

end Members

namespace Value

/-- Data without sets, whose lambdas fail with no error of a look-up. -/
inductive Calm : Value → Prop
  | null : Calm .null
  | bool (b : Bool) : Calm (.bool b)
  | int (n : Int) : Calm (.int n)
  | float (x : Float) : Calm (.float x)
  | text (s : String) : Calm (.text s)
  | bytes (bs : List UInt8) : Calm (.bytes bs)
  | moment (m : Moment) : Calm (.moment m)
  | duration (d : Duration) : Calm (.duration d)
  | zone (z : Zone) : Calm (.zone z)
  | iterator (id : Nat) : Calm (.iterator id)
  | list {items : List Value} : (∀ v ∈ items, Calm v) → Calm (.list items)
  | tuple {items : List Value} : (∀ v ∈ items, Calm v) → Calm (.tuple items)
  | map {entries : List (Value × Value)} : (∀ entry ∈ entries, Calm entry.2) → Calm (.map entries)
  | lambda {call : Option String → Except CallError String} :
      (∀ argument e, call argument = .error e → e.isLookup = false) → Calm (.lambda call)
  | object {label : String} {attributes : List (String × Value)} {truth : Bool}
      {items : Option (List Value)} : (∀ named ∈ attributes, Calm named.2) →
      (∀ vs, items = some vs → ∀ v ∈ vs, Calm v) → Calm (.object label attributes truth items)

variable {v w : Value}

theorem calm_ofMomentMember {member : MomentMember} (h : member.Tame) : (ofMomentMember member).Calm := by
  cases member with
  | number n => exact .int n
  | moment m => exact .moment m
  | duration d => exact .duration d
  | zone z =>
    cases z with
    | none => exact .null
    | some z => exact .zone z
  | method call => exact .lambda (h call rfl)

theorem Calm.element {items : List Value} {name : String} (h : ∀ v ∈ items, v.Calm)
    (hw : element? items name = some w) : w.Calm := by
  unfold element? at hw
  simp only at hw
  split at hw
  · cases hw
  · exact h w (List.mem_of_getElem? hw)

theorem Calm.member (h : v.Calm) {name : String} (hw : v.member? name = some w) : w.Calm := by
  have hmember : ∀ {found : Option MomentMember}, (∀ m, found = some m → m.Tame) →
      found.map ofMomentMember = some w → w.Calm := by
    intro found htame hfound
    obtain ⟨m, hm, rfl⟩ := Option.map_eq_some_iff.mp hfound
    exact calm_ofMomentMember (htame m hm)
  cases h with
  | list hitems | tuple hitems => exact Calm.element hitems hw
  | map hentries =>
    obtain ⟨entry, hentry, rfl⟩ := Option.map_eq_some_iff.mp hw
    exact hentries entry (List.mem_of_find?_eq_some hentry)
  | moment m => exact hmember (fun _ => Moment.tame_of_member?) hw
  | duration d => exact hmember (fun _ => Duration.tame_of_member?) hw
  | zone z => exact hmember (fun _ => Zone.tame_of_member?) hw
  | object hattributes _ =>
    rw [member?] at hw
    split at hw
    · cases hw
    · obtain ⟨named, hnamed, rfl⟩ := Option.map_eq_some_iff.mp hw
      exact hattributes named (List.mem_of_find?_eq_some hnamed)
  | null | bool _ | int _ | float _ | text _ | bytes _ | iterator _ | lambda _ => cases hw

theorem Calm.each (h : v.Calm) {items : List Value} (hiter : v.iteration = .each items) :
    ∀ w ∈ items, w.Calm := by
  cases h with
  | list hitems | tuple hitems =>
    cases hiter
    exact hitems
  | @object _ _ _ items' _ hitems =>
    cases items' with
    | none => cases hiter
    | some vs =>
      cases hiter
      exact hitems items rfl
  | _ => cases hiter

theorem Calm.iteration_ne_members (h : v.Calm) (id : Nat) (items : List Value) :
    v.iteration ≠ .members id items := by
  intro hiter
  cases h with
  | @object _ _ _ items' _ _ => cases items' <;> cases hiter
  | _ => cases hiter

theorem Calm.tame (h : v.Calm) : v.Tame := by
  intro call argument hcall
  cases h with
  | @lambda call' hfails =>
    cases hcall
    cases hc : call' argument with
    | ok text =>
      simp only [hc, Except.map]
      refine ⟨fun a ha => ?_, nofun⟩
      cases ha
      rfl
    | error e =>
      simp only [hc, Except.map]
      refine ⟨nofun, fun e' he' => ?_⟩
      cases he'
      exact hfails argument e hc
  | _ => cases hcall

end Value

namespace RenderState

variable {s : RenderState}

theorem tame_of_calm (hscopes : ∀ v ∈ s.context.scopes, v.Calm)
    (hgiven : ∀ id, ∀ v ∈ s.store.remaining id, v.Calm) (hsets : s.store.sets = []) : s.Tame := by
  have hcalm : ∀ keys v, s.Reachable keys v → v.Calm := by
    intro keys v hv
    induction hv with
    | missing => exact .null
    | scope hv => exact hscopes _ hv
    | member _ _ hw ih => exact ih.member hw
    | element _ hiter hw ih => exact ih.each hiter _ hw
    | setElement _ hiter _ ih => exact absurd hiter (ih.iteration_ne_members _ _)
    | given _ _ hw _ => exact hgiven _ _ hw
    | current _ ih =>
      unfold Store.current
      rw [hsets]
      exact ih
  exact fun keys v hv => (hcalm keys v hv).tame

theorem Tame.confines (hs : s.Tame) : Confines (fun t => ∃ keys, s.Within keys t)
    (fun v => ∃ keys, s.Reachable keys v) (fun e => e.isLookup = false) where
  resolve := by
    rintro t ⟨keys, ht⟩ lookup name
    have hmore := ht.mono (List.subset_append_left keys (lookup.keys name))
    exact ⟨_, hmore.reachable_lookup fun key hkey => List.mem_append_right _ hkey⟩
  note := fun t ⟨keys, ht⟩ events => ⟨keys, ht.scopes, ht.sets, ht.remaining⟩
  push := by
    rintro t ⟨keys, ht⟩ v ⟨keys', hv⟩
    have hmore := ht.mono (List.subset_append_left keys keys')
    exact ⟨_, hmore.push (hv.mono (List.subset_append_right keys keys'))⟩
  drop := fun t ⟨keys, ht⟩ => ⟨keys, ht.drop⟩
  atDepth := fun t ⟨keys, ht⟩ depth => ⟨keys, ht.scopes, ht.sets, ht.remaining⟩
  each := fun v items ⟨keys, hv⟩ hiter w hw => ⟨keys, .element hv hiter hw⟩
  members := fun v id items ⟨keys, hv⟩ hiter w hw => ⟨keys, .setElement hv hiter hw⟩
  next := by
    rintro t ⟨keys, ht⟩ v id ⟨keys', hv⟩ hiter w store hnext
    obtain ⟨ht', hw, -⟩ := ht.takeNext hnext
    exact ⟨⟨keys', .given hv hiter hw⟩, keys, ht'⟩
  answered := by
    rintro t ⟨keys, ht⟩ v call argument a ⟨keys', hv⟩ hcall ha
    have hchange := (hs keys' v hv call argument hcall).1 a ha
    have hstore : t.store.after a = t.store := by
      unfold Store.after
      rw [hchange]
    rw [hstore]
    exact ⟨keys, ht⟩
  failed := fun v call argument e ⟨keys, hv⟩ hcall he => (hs keys v hv call argument hcall).2 e he
  tooDeep _ := rfl
  setResized := rfl

end RenderState

end Mustache
