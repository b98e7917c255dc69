import Gpunetio.Host.Objects

/-!
# Every part has an owner

Whatever the driver answers, what is held after any calls are the parts of the objects that live,
and what was abandoned on the way.

* `Request.stages_ok`, `SrqCreate.stages_ok`: a constructor acquires parts of its class, each once;
* `World.Inv`: what is held, with what belongs to nobody;
* `Create.Tidy`, `CreateSrq.Tidy`, `Event.Tidy`: the calls that abandon nothing;
* `World.Inv.createHandle`, `World.Inv.createSrq`, `World.Inv.destroyHandle`,
  `World.Inv.destroySrq`, **`World.Inv.step`**: what a call abandons;
* **`misuse_run`**, **`balanced_iff`**: histories;
* `Event.Legal`, `World.Sound`, **`early_run`**: objects that others are made with.
-/

namespace Gpunetio.Objects

open Custody Teardown Staged Trace

/-! ## Parts of a class -/

theorem Class.order_nodup (c : Class) : c.order.Nodup := by cases c <;> decide

/-- The parts of the class, each at most once. -/
def Class.Has (c : Class) (parts : List Part) : Prop := parts.Nodup ∧ ∀ p ∈ parts, p ∈ c.order

instance (c : Class) (parts : List Part) : Decidable (c.Has parts) :=
  inferInstanceAs (Decidable (_ ∧ _))

theorem Class.Has.sublist {c : Class} {l l' : List Part} (h : c.Has l) (hl : l'.Sublist l) :
    c.Has l' :=
  ⟨h.1.sublist hl, fun p hp => h.2 p (hl.subset hp)⟩

theorem Class.Has.reverse {c : Class} {l : List Part} (h : c.Has l) : c.Has l.reverse :=
  ⟨List.nodup_reverse.2 h.1, fun p hp => h.2 p (List.mem_reverse.1 hp)⟩

theorem CqCreate.stages_ok (x : CqCreate) : Class.cq.Has (partsOf x.stages) := by
  unfold CqCreate.stages
  cases x.attr.externalUmem.isSome <;> cases x.externalUar <;>
    exact of_decide_eq_true (rfl : decide (Class.Has _ _) = true)

theorem QpCreate.stages_ok (x : QpCreate) : Class.qp.Has (partsOf x.stages) := by
  unfold QpCreate.stages
  cases x.attr.externalUmem.isSome <;> cases x.externalUar <;>
    exact of_decide_eq_true (rfl : decide (Class.Has _ _) = true)

theorem SrqCreate.stages_ok (x : SrqCreate) : Class.srq.Has (partsOf x.stages) := by
  unfold SrqCreate.stages
  cases x.attr.externalUmem.isSome <;>
    exact of_decide_eq_true (rfl : decide (Class.Has _ _) = true)

theorem Request.stages_ok (r : Request) : r.cls.Has (partsOf r.stages) := by
  cases r with
  | cq x => exact x.stages_ok
  | qp x => exact x.stages_ok
  | umem argsBad reg => exact of_decide_eq_true (rfl : decide (Class.Has _ _) = true)
  | uar typeKnown alloc => exact of_decide_eq_true (rfl : decide (Class.Has _ _) = true)

theorem Obj.build_has {o : Obj} {stages : List (Staged.Stage Part)} (site : Site Res)
    (hok : o.cls.Has (partsOf stages)) :
    o.cls.Has (build o.res stages ⟨[], site⟩).2.parts := by
  rw [build_parts, List.append_nil]
  exact (hok.sublist (acquired_sublist stages)).reverse

/-! ## The method `destroy` -/

section Destroy

variable {o : Obj} {d : Driver} {h : Holder Part Res} {t : List Res}

theorem Obj.destroy_holds (o : Obj) (d : Driver)
    (hs : h.site.store.Holds (h.parts.map o.res ++ t)) :
    (o.destroy d h).2.site.store.Holds ((o.destroy d h).2.parts.map o.res ++ t) :=
  tearDown_holds hs

theorem Obj.destroy_has (hp : o.cls.Has h.parts) : o.cls.Has (o.destroy d h).2.parts :=
  hp.sublist tearDown_sublist

theorem Obj.destroy_perm (hp : o.cls.Has h.parts) :
    (o.destroy d h).2.parts.Perm (kept d.ok o.cls.order h.parts) :=
  tearDown_perm o.cls.order_nodup hp.1 hp.2

/-- Nothing is left exactly if nothing is refused. -/
theorem Obj.destroy_eq_nil (hp : o.cls.Has h.parts) :
    (o.destroy d h).2.parts = [] ↔ ∀ p ∈ o.cls.order, p ∈ h.parts → d.ok p = true :=
  (tearDown_eq_nil o.cls.order_nodup hp.1 hp.2).trans kept_eq_nil

theorem Obj.destroy_fst (hp : o.cls.Has h.parts) (hfst : (o.destroy d h).1 = true) :
    (o.destroy d h).2.parts = [] :=
  tearDown_fst o.cls.order_nodup hp.1 hp.2 hfst

end Destroy

/-! ## The calls that abandon nothing -/

/-- The constructor leaves nothing behind: it succeeds, or nothing that it has acquired is refused
when it gives it back. -/
def Leaves (stages : List (Staged.Stage Part)) (d : Driver) (order : List Part) : Prop :=
  Staged.succeeds stages = true ∨ ∀ p ∈ order, p ∈ acquired stages → d.ok p = true

instance (stages : List (Staged.Stage Part)) (d : Driver) (order : List Part) :
    Decidable (Leaves stages d order) :=
  inferInstanceAs (Decidable (_ ∨ _))

/-- No handle is made, or it is not left by an early return. -/
def Create.Tidy (x : Create) : Prop :=
  (x.argNull || !x.calloc) = true ∨
    x.req.returnsEarly = false ∧ Leaves x.req.stages x.driver x.req.cls.order

/-- The SRQ is made, or nothing of it is refused. -/
def CreateSrq.Tidy (x : CreateSrq) : Prop :=
  x.argNull = true ∨ Leaves x.req.stages x.driver Class.srq.order

/-- An SRQ stays until all of it is gone; of another object the destructor must get what the method
has left. -/
def Destroy.Tidy (o : Obj) (d : Destroy) : Prop :=
  o.cls = .srq ∨ ∀ p ∈ kept d.first.ok o.cls.order o.parts, d.second.ok p = true

instance (x : Create) : Decidable x.Tidy := inferInstanceAs (Decidable (_ ∨ _))

instance (x : CreateSrq) : Decidable x.Tidy := inferInstanceAs (Decidable (_ ∨ _))

instance (o : Obj) (d : Destroy) : Decidable (d.Tidy o) := inferInstanceAs (Decidable (_ ∨ _))

/-- **The call abandons nothing.** -/
def Event.Tidy (w : World) : Event → Prop
  | .create x => x.Tidy
  | .createSrq x => x.Tidy
  | .destroy o d => o ∈ w.objs → d.Tidy o

instance (w : World) : ∀ e : Event, Decidable (e.Tidy w)
  | .create x => inferInstanceAs (Decidable x.Tidy)
  | .createSrq x => inferInstanceAs (Decidable x.Tidy)
  | .destroy o d => inferInstanceAs (Decidable (o ∈ w.objs → d.Tidy o))

/-! ## One call -/

/-- What is held: the parts of the objects, and what was abandoned. -/
structure World.Inv (w : World) (lost : List Res) : Prop where
  holds : w.site.store.Holds (lost ++ w.objs.flatMap Obj.held)
  has : ∀ o ∈ w.objs, o.cls.Has o.parts

/-- A call abandons something exactly if it is not tidy. -/
def World.Inv.After (w : World) (lost : List Res) (tidy : Prop) : Prop :=
  ∃ l, w.Inv (l ++ lost) ∧ (l = [] ↔ tidy)

theorem Request.hasHandle (r : Request) : r.cls.hasHandle = true := by cases r <;> rfl

section Step

variable {w : World} {lost : List Res} {o : Obj} {h : Holder Part Res}

theorem World.Inv.empty : World.empty.Inv [] := ⟨⟨.nil, rfl⟩, nofun⟩

/-- Nothing that is held belongs to nobody exactly if nothing was abandoned. -/
theorem World.Inv.balanced (hi : w.Inv lost) : w.Balanced ↔ lost = [] := by
  constructor
  · intro hb
    have hlen := hb.held.length_eq.symm.trans hi.holds.held.length_eq
    rw [List.length_append] at hlen
    exact List.eq_nil_of_length_eq_zero (by omega)
  · rintro rfl
    exact hi.holds

/-- The object lives, with the parts that it has. -/
theorem World.Inv.enter (hi : w.Inv lost) (hp : o.cls.Has h.parts)
    (hs : h.site.store.Holds
      (h.parts.map o.res ++ o.handles ++ lost ++ w.objs.flatMap Obj.held)) :
    (w.enter o h).Inv lost := by
  refine ⟨hs.of_perm (perm_open (g := Obj.held) rfl fun _ _ => rfl), fun o' ho' => ?_⟩
  obtain rfl | ho' := List.mem_cons.1 ho'
  · exact hp
  · exact hi.has o' ho'

/-- **The constructor**: the object lives, or what cannot be given back is abandoned; `fin` frees
the handle. -/
theorem World.Inv.construct (hi : w.Inv lost) {d : Driver} {stages : List (Staged.Stage Part)}
    {site : Site Res} (fin : Site Res → Site Res) (hok : o.cls.Has (partsOf stages))
    (hs : site.store.Holds (o.handles ++ (lost ++ w.objs.flatMap Obj.held)))
    (hfin : ∀ (s : Site Res) (l t : List Res),
      s.store.Holds (l ++ (o.handles ++ t)) → (fin s).store.Holds (l ++ t)) :
    World.Inv.After
      (match build o.res stages ⟨[], site⟩ with
        | (true, h) => w.enter o h
        | (false, h) => w.discard (fin (o.destroy d h).2.site))
      lost (Leaves stages d o.cls.order) := by
  have hfst := build_fst o.res stages ⟨[], site⟩
  have hparts := build_parts o.res stages ⟨[], site⟩
  have hbuilt := build_holds o.res stages ⟨[], site⟩
    (t := o.handles ++ (lost ++ w.objs.flatMap Obj.held)) hs
  have hp := Obj.build_has site hok
  rw [List.append_nil] at hparts
  generalize build o.res stages ⟨[], site⟩ = built at hfst hparts hbuilt hp ⊢
  obtain ⟨done, h⟩ := built
  cases done with
  | true =>
    refine ⟨[], hi.enter hp ?_, iff_of_true rfl (.inl hfst.symm)⟩
    simpa only [List.append_assoc] using hbuilt
  | false =>
    have hleft := hfin _ _ _ (o.destroy_holds d hbuilt)
    refine ⟨(o.destroy d h).2.parts.map o.res, ⟨?_, hi.has⟩, ?_⟩
    · rw [List.append_assoc]
      exact hleft
    · rw [List.map_eq_nil_iff, Obj.destroy_eq_nil hp, hparts]
      simp only [List.mem_reverse, Leaves, ← hfst, Bool.false_eq_true, false_or]

theorem World.Inv.createHandle (hi : w.Inv lost) (x : Create) :
    World.Inv.After (w.createHandle x) lost x.Tidy := by
  unfold World.createHandle
  by_cases harg : (x.argNull || !x.calloc) = true
  · rw [if_pos harg]
    exact ⟨[], hi, iff_of_true rfl (.inl harg)⟩
  · rw [if_neg harg]
    have hacq := hi.holds.acquire (r := (⟨w.next, x.req.cls, x.names, []⟩ : Obj).res .handle)
    have hhandles : (⟨w.next, x.req.cls, x.names, []⟩ : Obj).handles =
        [(⟨w.next, x.req.cls, x.names, []⟩ : Obj).res .handle] := if_pos x.req.hasHandle
    cases hearly : x.req.returnsEarly with
    | true =>
      refine ⟨[(⟨w.next, x.req.cls, x.names, []⟩ : Obj).res .handle], ⟨hacq, hi.has⟩, ?_⟩
      refine iff_of_false (List.cons_ne_nil _ _) ?_
      rintro (h | ⟨h, -⟩)
      · exact harg h
      · rw [hearly] at h
        cases h
    | false =>
      have htidy : x.Tidy ↔ Leaves x.req.stages x.driver x.req.cls.order :=
        ⟨fun h => (h.resolve_left harg).2, fun h => .inr ⟨hearly, h⟩⟩
      rw [World.Inv.After, htidy]
      refine hi.construct (o := ⟨w.next, x.req.cls, x.names, []⟩) _ x.req.stages_ok ?_ ?_
      · rw [hhandles]
        exact hacq
      · intro s l t hs
        rw [hhandles] at hs
        exact (hs.of_perm List.perm_middle).release

theorem World.Inv.createSrq (hi : w.Inv lost) (x : CreateSrq) :
    World.Inv.After (w.createSrq x) lost x.Tidy := by
  unfold World.createSrq
  by_cases harg : x.argNull = true
  · rw [if_pos harg]
    exact ⟨[], hi, iff_of_true rfl (.inl harg)⟩
  · rw [if_neg harg]
    have htidy : x.Tidy ↔ Leaves x.req.stages x.driver Class.srq.order :=
      ⟨fun h => h.resolve_left harg, .inr⟩
    rw [World.Inv.After, htidy]
    exact hi.construct (o := ⟨w.next, .srq, x.names, []⟩) id x.req.stages_ok hi.holds
      fun s l t hs => hs

/-- What an object owns is in hand while it is destroyed. -/
theorem World.Inv.hand (hi : w.Inv lost) (ho : o ∈ w.objs) :
    w.site.store.Holds
      (o.parts.map o.res ++ (o.handles ++ (lost ++ (w.objs.erase o).flatMap Obj.held))) := by
  have hperm := hi.holds.of_perm (perm_close ho)
  simpa only [Obj.held, List.append_assoc] using hperm

theorem World.Inv.destroyHandle (hi : w.Inv lost) (ho : o ∈ w.objs) (hcls : o.cls ≠ .srq)
    (d : Destroy) : World.Inv.After (w.destroyHandle o d) lost (d.Tidy o) := by
  have hhandles : o.handles = [o.res .handle] := by
    refine if_pos ?_
    cases hc : o.cls <;> first | rfl | exact absurd hc hcls
  have hhand := hi.hand ho
  rw [hhandles] at hhand
  have hfirst := o.destroy_holds d.first (h := ⟨o.parts, w.site⟩) hhand
  have hsecond := o.destroy_holds d.second hfirst
  have hp : o.cls.Has o.parts := hi.has o ho
  have hp' := Obj.destroy_has (d := d.first) (h := ⟨o.parts, w.site⟩) hp
  have hperm := Obj.destroy_perm (d := d.first) (h := ⟨o.parts, w.site⟩) hp
  refine ⟨(o.destroy d.second (o.destroy d.first ⟨o.parts, w.site⟩).2).2.parts.map o.res,
    ⟨?_, fun o' ho' => hi.has o' (List.mem_of_mem_erase ho')⟩, ?_⟩
  · rw [List.append_assoc]
    exact (hsecond.of_perm List.perm_middle).release
  · rw [List.map_eq_nil_iff, Obj.destroy_eq_nil hp']
    constructor
    · intro h
      exact .inr fun p hpk => h p (hp.2 p (mem_of_mem_kept hpk)) (hperm.mem_iff.2 hpk)
    · rintro (h | h) p - hpk
      · exact absurd h hcls
      · exact h p (hperm.mem_iff.1 hpk)

theorem World.Inv.destroySrq (hi : w.Inv lost) (ho : o ∈ w.objs) (hcls : o.cls = .srq)
    (d : Destroy) : World.Inv.After (w.destroySrq o d) lost (d.Tidy o) := by
  have hhandles : o.handles = [] := if_neg (by rw [hcls]; decide)
  have hhand := hi.hand ho
  rw [hhandles] at hhand
  have hfirst := o.destroy_holds d.first (h := ⟨o.parts, w.site⟩) hhand
  have hp : o.cls.Has o.parts := hi.has o ho
  have hp' := Obj.destroy_has (d := d.first) (h := ⟨o.parts, w.site⟩) hp
  have hnil := Obj.destroy_fst (d := d.first) (h := ⟨o.parts, w.site⟩) hp
  have hothers : ∀ o' ∈ w.objs.erase o, o'.cls.Has o'.parts :=
    fun o' ho' => hi.has o' (List.mem_of_mem_erase ho')
  unfold World.destroySrq
  generalize o.destroy d.first ⟨o.parts, w.site⟩ = left at hfirst hp' hnil ⊢
  obtain ⟨done, h⟩ := left
  refine ⟨[], ?_, iff_of_true rfl (.inl hcls)⟩
  cases done with
  | true =>
    have hparts : h.parts = [] := hnil rfl
    have hsecond := o.destroy_holds d.second hfirst
    have hgone : (o.destroy d.second h).2.parts = [] := by
      rw [Obj.destroy_eq_nil hp', hparts]
      exact fun p _ hpn => nomatch hpn
    rw [hgone] at hsecond
    exact ⟨hsecond, hothers⟩
  | false =>
    have hheld : Obj.held { o with parts := h.parts } = h.parts.map o.res := by
      rw [Obj.held, show Obj.handles { o with parts := h.parts } = [] from hhandles,
        List.append_nil]
      rfl
    refine ⟨?_, fun o' ho' => ?_⟩
    · have hopen := perm_open (g := Obj.held) (f := Obj.held) (t := lost) (l := w.objs.erase o)
        hheld fun _ _ => rfl
      rw [List.append_assoc] at hopen
      exact hfirst.of_perm hopen
    · obtain rfl | ho' := List.mem_cons.1 ho'
      · exact hp'
      · exact hothers o' ho'

/-- **One call** abandons something exactly if it is not tidy. -/
theorem World.Inv.step (hi : w.Inv lost) (e : Event) :
    World.Inv.After (w.step e) lost (e.Tidy w) := by
  cases e with
  | create x => exact hi.createHandle x
  | createSrq x => exact hi.createSrq x
  | destroy o d =>
    show World.Inv.After (if o ∈ w.objs then w.destroy o d else w) lost (o ∈ w.objs → d.Tidy o)
    by_cases ho : o ∈ w.objs
    · rw [if_pos ho]
      simp only [ho, forall_const]
      unfold World.destroy
      split_ifs with hcls
      · exact hi.destroySrq ho hcls d
      · exact hi.destroyHandle ho hcls d
    · rw [if_neg ho]
      exact ⟨[], hi, iff_of_true rfl fun h => absurd h ho⟩

end Step

/-! ## Histories -/

/-- **Nothing is given back that is not held**, whatever is called and whatever the driver
answers. -/
theorem misuse_run (es : List Event) :
    (run World.step World.empty es).site.store.misuse = false := by
  suffices hrun : ∀ w lost, World.Inv w lost → ∃ lost', (run World.step w es).Inv lost' by
    obtain ⟨lost, hi⟩ := hrun _ _ World.Inv.empty
    exact hi.holds.misuse
  induction es with
  | nil => exact fun w lost hi => ⟨lost, hi⟩
  | cons e es ih =>
    intro w lost hi
    obtain ⟨l, hl, -⟩ := hi.step e
    exact ih _ _ hl

/-- **What is held are the parts of the objects that live**, after each call, exactly if every call
is tidy. -/
theorem balanced_iff (es : List Event) :
    Along World.step (fun w e => (w.step e).Balanced) World.empty es ↔
      Along World.step (fun w e => e.Tidy w) World.empty es := by
  refine along_iff (I := fun w => w.Inv []) World.Inv.empty (fun w e hi => ?_) fun w e hi ht => ?_
  · obtain ⟨l, hl, htidy⟩ := hi.step e
    rw [List.append_nil] at hl
    exact hl.balanced.trans htidy
  · obtain ⟨l, hl, htidy⟩ := hi.step e
    rw [htidy.2 ht, List.append_nil] at hl
    exact hl

/-- The address of a umem is null: the handle is abandoned. -/
example :
    (World.empty.step (.create ⟨.umem true true, [], false, true, ⟨true, true⟩⟩)).site.store.held =
      [⟨0, [], .handle⟩] := by
  decide

/-! ## Objects that others are made with -/

/-- An object is made with objects that live, and one that others are made with is not destroyed. -/
def Event.Legal (w : World) : Event → Prop
  | .create x => ∀ n ∈ x.names, n ∈ w.objs.map Obj.id
  | .createSrq x => ∀ n ∈ x.names, n ∈ w.objs.map Obj.id
  | .destroy o _ => ∀ o' ∈ w.objs, o.id ∉ o'.names

instance (w : World) : ∀ e : Event, Decidable (e.Legal w)
  | .create x => inferInstanceAs (Decidable (∀ n ∈ x.names, n ∈ w.objs.map Obj.id))
  | .createSrq x => inferInstanceAs (Decidable (∀ n ∈ x.names, n ∈ w.objs.map Obj.id))
  | .destroy o _ => inferInstanceAs (Decidable (∀ o' ∈ w.objs, o.id ∉ o'.names))

/-- Nothing has been given back early; every object is younger than those that it is made with. -/
structure World.Sound (w : World) : Prop where
  early : w.site.early = false
  nodup : (w.objs.map Obj.id).Nodup
  id_lt : ∀ o ∈ w.objs, o.id < w.next
  names_lt : ∀ o ∈ w.objs, ∀ n ∈ o.names, n < o.id

theorem Class.order_pairwise (c : Class) :
    c.order.Pairwise fun a b => b.needs a = false := by
  cases c <;> decide

theorem Part.needs_handle (p : Part) : p.needs .handle = false := by cases p <;> rfl

theorem Part.handle_needs (p : Part) : Part.handle.needs p = false := by cases p <;> rfl

theorem Part.needs_self (p : Part) : p.needs p = false := by cases p <;> rfl

theorem Obj.not_refers {o : Obj} {p q : Part} (h : q.needs p = false) :
    ¬ (o.res q).Refers (o.res p) := by
  rintro (⟨-, hn⟩ | ⟨hne, -⟩)
  · exact Bool.false_ne_true (h.symm.trans hn)
  · exact hne rfl

theorem Obj.mem_handles {o : Obj} {x : Res} (hx : x ∈ o.handles) : x = o.res .handle := by
  unfold Obj.handles at hx
  split_ifs at hx
  · exact List.mem_singleton.1 hx
  · cases hx

/-- A part of another object does not refer to an object that it is not made with. -/
theorem Obj.not_refers_of_ne {o o' : Obj} {x : Res} (hx : x ∈ o'.held) (hne : o'.id ≠ o.id)
    (hn : o.id ∉ o'.names) (p : Part) : ¬ x.Refers (o.res p) := by
  have hres : ∃ q, x = o'.res q := by
    unfold Obj.held at hx
    obtain hx | hx := List.mem_append.1 hx
    · obtain ⟨q, -, rfl⟩ := List.mem_map.1 hx
      exact ⟨q, rfl⟩
    · exact ⟨.handle, Obj.mem_handles hx⟩
  obtain ⟨q, rfl⟩ := hres
  rintro (⟨heq, -⟩ | ⟨-, -, hmem⟩)
  · exact hne heq
  · exact hn hmem

section Early

variable {w : World} {o : Obj} {d : Driver} {h : Holder Part Res} {t : List Res}

theorem Obj.destroy_early (he : h.site.early = false) (hp : o.cls.Has h.parts)
    (hs : h.site.store.Holds (h.parts.map o.res ++ (o.handles ++ t)))
    (ht : ∀ x ∈ t, ∀ p, ¬ x.Refers (o.res p)) : (o.destroy d h).2.site.early = false := by
  refine tearDown_early he hs hp.1 hp.2 (fun p => Obj.not_refers p.needs_self) ?_ ?_
  · exact o.cls.order_pairwise.imp fun hab => Obj.not_refers hab
  · intro x hx p
    obtain hx | hx := List.mem_append.1 hx
    · rw [Obj.mem_handles hx]
      exact Obj.not_refers p.handle_needs
    · exact ht x hx p

/-- The handle goes last. -/
theorem handle_early {site : Site Res} {l : List Part} (he : site.early = false)
    (hs : site.store.Holds (l.map o.res ++ (o.handles ++ t)))
    (ht : ∀ x ∈ t, ∀ p, ¬ x.Refers (o.res p)) :
    (site.release Res.Refers (o.res .handle)).early = false := by
  refine Site.release_early he fun _ x hx => ?_
  have hmem := hs.held.mem_iff.1 hx
  rw [List.mem_append, List.mem_append] at hmem
  obtain hx | hx | hx := hmem
  · obtain ⟨q, -, rfl⟩ := List.mem_map.1 hx
    exact Obj.not_refers q.needs_handle
  · rw [Obj.mem_handles hx]
    exact Obj.not_refers (Part.needs_self _)
  · exact ht x hx _

theorem World.Sound.empty : World.empty.Sound := ⟨rfl, .nil, nofun, nofun⟩

theorem World.Sound.id_lt_of_mem (hw : w.Sound) {n : ℕ} (hn : n ∈ w.objs.map Obj.id) :
    n < w.next := by
  obtain ⟨o, ho, rfl⟩ := List.mem_map.1 hn
  exact hw.id_lt o ho

theorem World.Sound.enter (hw : w.Sound) (hid : o.id = w.next)
    (hnames : ∀ n ∈ o.names, n ∈ w.objs.map Obj.id) (he : h.site.early = false) :
    (w.enter o h).Sound where
  early := he
  nodup := by
    refine List.nodup_cons.2 ⟨fun hmem => ?_, hw.nodup⟩
    have hlt : o.id < w.next := hw.id_lt_of_mem hmem
    omega
  id_lt := by
    intro o' ho'
    obtain rfl | ho' := List.mem_cons.1 ho'
    · show o.id < w.next + 1
      omega
    · exact Nat.lt_succ_of_lt (hw.id_lt o' ho')
  names_lt := by
    intro o' ho' n hn
    obtain rfl | ho' := List.mem_cons.1 ho'
    · show n < o.id
      rw [hid]
      exact hw.id_lt_of_mem (hnames n hn)
    · exact hw.names_lt o' ho' n hn

theorem World.Sound.discard (hw : w.Sound) {site : Site Res} (he : site.early = false) :
    (w.discard site).Sound :=
  ⟨he, hw.nodup, fun o ho => Nat.lt_succ_of_lt (hw.id_lt o ho), hw.names_lt⟩

/-- Nothing refers to an object that is new. -/
theorem World.Sound.new_not_refers (hw : w.Sound) (hid : o.id = w.next) :
    ∀ x ∈ w.objs.flatMap Obj.held, ∀ p, ¬ x.Refers (o.res p) := by
  intro x hx p
  obtain ⟨o', ho', hx⟩ := List.mem_flatMap.1 hx
  have hlt := hw.id_lt o' ho'
  refine Obj.not_refers_of_ne hx (by omega) (fun hn => ?_) p
  have hold := hw.names_lt o' ho' o.id hn
  omega

/-- Nothing else refers to an object that is destroyed. -/
theorem World.Sound.old_not_refers (hw : w.Sound) (ho : o ∈ w.objs)
    (hlegal : ∀ o' ∈ w.objs, o.id ∉ o'.names) :
    ∀ x ∈ (w.objs.erase o).flatMap Obj.held, ∀ p, ¬ x.Refers (o.res p) := by
  intro x hx p
  obtain ⟨o', ho', hx⟩ := List.mem_flatMap.1 hx
  have hperm := (List.perm_cons_erase ho).map Obj.id
  have hnodup := hperm.nodup_iff.1 hw.nodup
  rw [List.map_cons, List.nodup_cons] at hnodup
  refine Obj.not_refers_of_ne hx (fun heq => ?_) (hlegal o' (List.mem_of_mem_erase ho')) p
  exact hnodup.1 (List.mem_map.2 ⟨o', ho', heq⟩)

theorem World.Sound.construct (hw : w.Sound) {stages : List (Staged.Stage Part)}
    {site : Site Res} (fin : Site Res → Site Res) (hok : o.cls.Has (partsOf stages))
    (hid : o.id = w.next) (hnames : ∀ n ∈ o.names, n ∈ w.objs.map Obj.id)
    (he : site.early = false)
    (hs : site.store.Holds (o.handles ++ w.objs.flatMap Obj.held))
    (hfin : ∀ (s : Site Res) (l : List Part), s.early = false →
      s.store.Holds (l.map o.res ++ (o.handles ++ w.objs.flatMap Obj.held)) →
        (fin s).early = false) :
    World.Sound
      (match build o.res stages ⟨[], site⟩ with
        | (true, h) => w.enter o h
        | (false, h) => w.discard (fin (o.destroy d h).2.site)) := by
  have hbuilt := build_holds o.res stages ⟨[], site⟩
    (t := o.handles ++ w.objs.flatMap Obj.held) hs
  have hearly := (build_early o.res stages ⟨[], site⟩).trans he
  have hp := Obj.build_has site hok
  generalize build o.res stages ⟨[], site⟩ = built at hbuilt hearly hp ⊢
  obtain ⟨done, h⟩ := built
  cases done with
  | true => exact hw.enter hid hnames hearly
  | false =>
    have hleft := o.destroy_early (d := d) hearly hp hbuilt (hw.new_not_refers hid)
    exact hw.discard (hfin _ _ hleft (o.destroy_holds d hbuilt))

theorem World.Sound.createHandle (hw : w.Sound) (hi : w.Inv []) {x : Create}
    (hlegal : ∀ n ∈ x.names, n ∈ w.objs.map Obj.id) : (w.createHandle x).Sound := by
  unfold World.createHandle
  split_ifs with harg hearly
  · exact hw
  · exact hw.discard hw.early
  · have hacq := hi.holds.acquire (r := (⟨w.next, x.req.cls, x.names, []⟩ : Obj).res .handle)
    have hhandles : (⟨w.next, x.req.cls, x.names, []⟩ : Obj).handles =
        [(⟨w.next, x.req.cls, x.names, []⟩ : Obj).res .handle] := if_pos x.req.hasHandle
    refine hw.construct (o := ⟨w.next, x.req.cls, x.names, []⟩) _ x.req.stages_ok rfl hlegal
      hw.early ?_ fun s l he hs => ?_
    · rw [hhandles]
      exact hacq
    · exact handle_early he hs (hw.new_not_refers rfl)

theorem World.Sound.createSrq (hw : w.Sound) (hi : w.Inv []) {x : CreateSrq}
    (hlegal : ∀ n ∈ x.names, n ∈ w.objs.map Obj.id) : (w.createSrq x).Sound := by
  unfold World.createSrq
  split_ifs with harg
  · exact hw
  · exact hw.construct (o := ⟨w.next, .srq, x.names, []⟩) id x.req.stages_ok rfl hlegal
      hw.early hi.holds fun s l he hs => he

theorem World.Sound.erase (hw : w.Sound) {site : Site Res} (he : site.early = false) :
    World.Sound ⟨w.next, site, w.objs.erase o⟩ :=
  ⟨he, hw.nodup.sublist (List.erase_sublist.map _),
    fun o' ho' => hw.id_lt o' (List.mem_of_mem_erase ho'),
    fun o' ho' => hw.names_lt o' (List.mem_of_mem_erase ho')⟩

theorem World.Sound.destroyHandle (hw : w.Sound) (hi : w.Inv []) (ho : o ∈ w.objs)
    (hlegal : ∀ o' ∈ w.objs, o.id ∉ o'.names) (x : Destroy) : (w.destroyHandle o x).Sound := by
  have hothers := hw.old_not_refers ho hlegal
  have hp : o.cls.Has o.parts := hi.has o ho
  have hhand := hi.hand ho
  have hfirst := o.destroy_holds x.first (h := ⟨o.parts, w.site⟩) hhand
  have hsecond := o.destroy_holds x.second hfirst
  have hearly := o.destroy_early (d := x.first) (h := ⟨o.parts, w.site⟩) hw.early hp hhand hothers
  have hearly' := o.destroy_early (d := x.second) hearly (Obj.destroy_has hp) hfirst hothers
  exact hw.erase (handle_early hearly' hsecond hothers)

theorem World.Sound.destroySrq (hw : w.Sound) (hi : w.Inv []) (ho : o ∈ w.objs)
    (hlegal : ∀ o' ∈ w.objs, o.id ∉ o'.names) (x : Destroy) : (w.destroySrq o x).Sound := by
  have hothers := hw.old_not_refers ho hlegal
  have hp : o.cls.Has o.parts := hi.has o ho
  have hhand := hi.hand ho
  have hfirst := o.destroy_holds x.first (h := ⟨o.parts, w.site⟩) hhand
  have hp' := Obj.destroy_has (d := x.first) (h := ⟨o.parts, w.site⟩) hp
  have hearly := o.destroy_early (d := x.first) (h := ⟨o.parts, w.site⟩) hw.early hp hhand hothers
  unfold World.destroySrq
  generalize o.destroy x.first ⟨o.parts, w.site⟩ = left at hfirst hp' hearly ⊢
  obtain ⟨done, h⟩ := left
  cases done with
  | true => exact hw.erase (o.destroy_early (d := x.second) hearly hp' hfirst hothers)
  | false =>
    have hperm := (List.perm_cons_erase ho).map Obj.id
    have hrest := hw.erase (o := o) hearly
    refine ⟨hearly, hperm.nodup_iff.1 hw.nodup, fun o' ho' => ?_, fun o' ho' => ?_⟩
    · obtain rfl | ho' := List.mem_cons.1 ho'
      · exact hw.id_lt o ho
      · exact hrest.id_lt o' ho'
    · obtain rfl | ho' := List.mem_cons.1 ho'
      · exact hw.names_lt o ho
      · exact hrest.names_lt o' ho'

theorem World.Sound.step (hw : w.Sound) (hi : w.Inv []) {e : Event} (hlegal : e.Legal w) :
    (w.step e).Sound := by
  cases e with
  | create x => exact hw.createHandle hi hlegal
  | createSrq x => exact hw.createSrq hi hlegal
  | destroy o x =>
    show World.Sound (if o ∈ w.objs then w.destroy o x else w)
    split_ifs with ho
    · unfold World.destroy
      split_ifs with hcls
      · exact hw.destroySrq hi ho hlegal x
      · exact hw.destroyHandle hi ho hlegal x
    · exact hw

end Early

/-- **Nothing is given back while something is made with it**, in a history of tidy and legal
calls. -/
theorem early_run (es : List Event)
    (h : Along World.step (fun w e => e.Tidy w ∧ e.Legal w) World.empty es) :
    (run World.step World.empty es).site.early = false := by
  suffices hrun : ∀ w, World.Inv w [] → w.Sound →
      Along World.step (fun w e => e.Tidy w ∧ e.Legal w) w es →
        (run World.step w es).site.early = false from
    hrun _ World.Inv.empty World.Sound.empty h
  clear h
  induction es with
  | nil => exact fun w hi hw _ => hw.early
  | cons e es ih =>
    rintro w hi hw ⟨⟨ht, hlegal⟩, hrest⟩
    obtain ⟨l, hl, htidy⟩ := hi.step e
    rw [htidy.2 ht, List.append_nil] at hl
    exact ih _ hl (hw.step hi hlegal) hrest

/-- A umem, a CQ on it, and both destroyed, with a driver that refuses the CQ once. -/
theorem early_run_cq :
    (run World.step World.empty
      [.create ⟨.umem false true, [], false, true, ⟨true, true⟩⟩,
        .create ⟨.cq ⟨true, Layout.someDevice, ⟨64, some ⟨7, 0⟩, 0⟩, false,
          ⟨true, true, true, true⟩⟩, [0], false, true, ⟨true, true⟩⟩,
        .destroy ⟨1, .cq, [0], [.obj, .uar, .deviceAttr]⟩ ⟨⟨false, true⟩, ⟨true, true⟩⟩,
        .destroy ⟨0, .umem, [], [.umemObj]⟩ ⟨⟨true, true⟩, ⟨true, true⟩⟩]).site.early = false :=
  early_run _ ⟨by decide, by decide, by decide, by decide, trivial⟩

/-- The umem of a CQ that lives is destroyed. -/
example :
    (run World.step World.empty
      [.create ⟨.umem false true, [], false, true, ⟨true, true⟩⟩,
        .create ⟨.cq ⟨true, Layout.someDevice, ⟨64, some ⟨7, 0⟩, 0⟩, false,
          ⟨true, true, true, true⟩⟩, [0], false, true, ⟨true, true⟩⟩,
        .destroy ⟨0, .umem, [], [.umemObj]⟩ ⟨⟨true, true⟩, ⟨true, true⟩⟩]).site.early = true := by
  decide

end Gpunetio.Objects
