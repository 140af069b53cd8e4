import TradeGate.Canonical.Unique
import TradeGate.Model.Plan

/-! Plans are told apart by their canonical JSON. -/
namespace TradeGate.Execd
open TradeGate.Canonical TradeGate.Canonical.Tree

namespace Wire

/-- Every number is an integer of one of the two types. -/
def Integral (t : Doc) : Prop := ∀ x ∈ t.numbers, x ∈ Canonical.Execd.integers

/-! Fields. -/
section
variable {fs gs : List (String × Option Doc)}

/-- No field holds a null. -/
def NonNull (fs : List (String × Option Doc)) : Prop := ∀ m ∈ fs, ∀ x ∈ m.2, x.isNull=false

/-- The fields with their values arranged. -/
def arrangeFields (fs : List (String × Option Doc)) : List (String × Option Doc) :=
  fs.map fun m => (m.1,m.2.map arranged)

theorem members_cons_none (k : String) (fs : List (String × Option Doc)) :
    members ((k,none)::fs)=members fs := rfl

theorem members_cons_some (k : String) (x : Doc) (fs : List (String × Option Doc)) :
    members ((k,some x)::fs)=(k,x)::members fs := rfl

theorem name_of_mem {m : String × Doc} (h : m ∈ members fs) : m.1 ∈ fs.map Prod.fst := by
  obtain ⟨f,hf,hm⟩ := List.mem_filterMap.mp h
  obtain ⟨x,-,rfl⟩ := Option.map_eq_some_iff.mp hm
  exact List.mem_map_of_mem hf

/-- Fields of the same names are told from their members, in whatever order those come. -/
theorem members_inj (h : (members fs).Perm (members gs)) (hk : fs.map Prod.fst=gs.map Prod.fst)
    (hn : (fs.map Prod.fst).Nodup) : fs=gs := by
  induction fs generalizing gs with
  | nil => exact (List.map_eq_nil_iff.mp hk.symm).symm
  | cons f fs ih =>
    cases gs with
    | nil => cases hk
    | cons g gs =>
      obtain ⟨k,x⟩ := f
      obtain ⟨l,y⟩ := g
      rw [List.map_cons,List.map_cons,List.cons.injEq] at hk
      obtain ⟨rfl,hk⟩ : k=l ∧ _ := hk
      rw [List.map_cons,List.nodup_cons] at hn
      have hfresh : ∀ a, (k,a) ∉ members fs := fun a ha => hn.1 (name_of_mem ha)
      have hfresh' : ∀ a, (k,a) ∉ members gs := fun a ha => hn.1 (hk ▸ name_of_mem ha)
      cases x with
      | none =>
        rw [members_cons_none] at h
        cases y with
        | none =>
          rw [members_cons_none] at h
          rw [ih h hk hn.2]
        | some b => exact absurd (h.mem_iff.mpr List.mem_cons_self) (hfresh b)
      | some a =>
        rw [members_cons_some] at h
        cases y with
        | none => exact absurd (h.mem_iff.mp List.mem_cons_self) (hfresh' a)
        | some b =>
          rw [members_cons_some] at h
          have hab : a=b := by
            obtain hab|hab := List.mem_cons.mp (h.mem_iff.mp List.mem_cons_self)
            · exact (Prod.mk.inj hab).2
            · exact absurd hab (hfresh' a)
          subst hab
          rw [ih h.cons_inv hk hn.2]

theorem arrangeMembers_members (h : NonNull fs) :
    arrangeMembers (sortBy codePoints) (members fs)=members (arrangeFields fs) := by
  induction fs with
  | nil => rw [members,List.filterMap_nil,arrangeMembers]; rfl
  | cons f fs ih =>
    obtain ⟨k,x⟩ := f
    obtain ⟨hx,hfs⟩ := List.forall_mem_cons.mp h
    cases x with
    | none => exact ih hfs
    | some x =>
      rw [members_cons_some,arrangeMembers,if_neg (by rw [hx x rfl]; decide),ih hfs]
      rfl

theorem perm_of_arranged (hf : NonNull fs) (hg : NonNull gs)
    (h : (object fs).arranged=(object gs).arranged) :
    (members (arrangeFields fs)).Perm (members (arrangeFields gs)) := by
  unfold object at h
  rw [arranged_obj,arranged_obj,obj.injEq,arrangeMembers_members hf,arrangeMembers_members hg] at h
  have hperm := sortBy_perm codePoints (members (arrangeFields fs))
  rw [h] at hperm
  exact hperm.symm.trans (sortBy_perm _ _)

/-- The arranged object tells its fields. -/
theorem object_inj (hk : fs.map Prod.fst=gs.map Prod.fst) (hn : (fs.map Prod.fst).Nodup)
    (hf : NonNull fs) (hg : NonNull gs) (h : (object fs).arranged=(object gs).arranged) :
    arrangeFields fs=arrangeFields gs := by
  have hnames : ∀ fs, (arrangeFields fs).map Prod.fst=fs.map Prod.fst := by
    intro fs
    rw [arrangeFields,List.map_map]
    rfl
  apply members_inj (perm_of_arranged hf hg h)
  · rw [hnames,hnames,hk]
  · rwa [hnames]

/-- The arranged object tells a member that it has under a name. -/
theorem object_head {k : String} {x y : Doc} (hx : NonNull ((k,some x)::fs))
    (hy : NonNull ((k,some y)::gs)) (hk : k ∉ gs.map Prod.fst)
    (h : (object ((k,some x)::fs)).arranged=(object ((k,some y)::gs)).arranged) :
    x.arranged=y.arranged := by
  have hmem := (perm_of_arranged hx hy h).mem_iff.mp List.mem_cons_self
  obtain hxy|hmem := List.mem_cons.mp hmem
  · exact (Prod.mk.inj hxy).2
  · have hname : k ∈ (arrangeFields gs).map Prod.fst := name_of_mem hmem
    rw [arrangeFields,List.map_map] at hname
    exact absurd hname hk

theorem integral_object (h : ∀ m ∈ fs, ∀ x ∈ m.2, Integral x) : Integral (object fs) := by
  intro n hn
  rw [object,numbers,numbersMembers_eq] at hn
  obtain ⟨m,hm,hn⟩ := List.mem_flatMap.mp hn
  obtain ⟨f,hf,hm⟩ := List.mem_filterMap.mp hm
  obtain ⟨x,hx,rfl⟩ := Option.map_eq_some_iff.mp hm
  exact h f hf x hx n hn

theorem members_names_nodup (h : (fs.map Prod.fst).Nodup) : ((members fs).map Prod.fst).Nodup := by
  induction fs with
  | nil => simp [members]
  | cons f fs ih =>
    obtain ⟨k,x⟩ := f
    rw [List.map_cons,List.nodup_cons] at h
    cases x with
    | none => exact ih h.2
    | some x =>
      rw [members_cons_some,List.map_cons,List.nodup_cons]
      refine ⟨fun hk => ?_,ih h.2⟩
      obtain ⟨m,hm,rfl⟩ := List.mem_map.mp hk
      exact h.1 (name_of_mem hm)

theorem distinct_object (hn : (fs.map Prod.fst).Nodup) (h : ∀ m ∈ fs, ∀ x ∈ m.2, x.Distinct) :
    (object fs).Distinct := by
  rw [object,Distinct,distinctMembers_iff]
  refine ⟨members_names_nodup hn,fun m hm => ?_⟩
  obtain ⟨f,hf,hm⟩ := List.mem_filterMap.mp hm
  obtain ⟨x,hx,rfl⟩ := Option.map_eq_some_iff.mp hm
  exact h f hf x hx

end

/-! Encodings. -/

/-- An encoding that the canonical form keeps apart. -/
structure Faithful {α : Type} (f : α → Doc) : Prop where
  nonNull : ∀ a, (f a).isNull=false
  integral : ∀ a, Integral (f a)
  distinct : ∀ a, (f a).Distinct
  inj : ∀ a b, (f a).arranged=(f b).arranged → a=b

section
variable {α : Type} {f : α → Doc}

/-- A value that is written as a field and stays one. -/
structure Proper (x : Option Doc) : Prop where
  nonNull : ∀ a ∈ x, a.isNull=false
  integral : ∀ a ∈ x, Integral a
  distinct : ∀ a ∈ x, a.Distinct

theorem Faithful.proper_some (h : Faithful f) {a : α} : Proper (some (f a)) where
  nonNull := by
    rintro x ⟨⟩
    exact h.nonNull a
  integral := by
    rintro x ⟨⟩
    exact h.integral a
  distinct := by
    rintro x ⟨⟩
    exact h.distinct a

theorem Faithful.proper_option (h : Faithful f) {a : Option α} : Proper (a.map f) := by
  cases a with
  | none => constructor <;> exact fun x hx => absurd hx (by simp)
  | some a => exact h.proper_some

theorem Faithful.some_iff (h : Faithful f) {a b : α} :
    (some (f a)).map arranged=(some (f b)).map arranged ↔ a=b := by
  constructor
  · exact fun hab => h.inj a b (Option.some.inj hab)
  · exact fun hab => hab ▸ rfl

theorem Faithful.option_iff (h : Faithful f) {a b : Option α} :
    (a.map f).map arranged=(b.map f).map arranged ↔ a=b := by
  constructor
  · intro hab
    cases a with
    | none =>
      cases b with
      | none => rfl
      | some b => cases hab
    | some a =>
      cases b with
      | none => cases hab
      | some b => rw [h.some_iff.mp hab]
  · exact fun hab => hab ▸ rfl

theorem Faithful.arr (h : Faithful f) : Faithful fun as : List α => .arr (as.map f) where
  nonNull _ := rfl
  integral as := by
    intro n hn
    rw [numbers,numbersAll_eq] at hn
    obtain ⟨t,ht,hn⟩ := List.mem_flatMap.mp hn
    obtain ⟨a,-,rfl⟩ := List.mem_map.mp ht
    exact h.integral a n hn
  distinct as := by
    rw [Distinct,distinctAll_iff]
    intro t ht
    obtain ⟨a,-,rfl⟩ := List.mem_map.mp ht
    exact h.distinct a
  inj as bs hab := by
    rw [arranged,arranged,arrange,arrange,arr.injEq,arrangeAll_eq,arrangeAll_eq,List.map_map,
      List.map_map] at hab
    exact List.map_injective_iff.mpr (fun a b => h.inj a b) hab

theorem faithful_text {g : α → String} (h : Function.Injective g) : Faithful fun a => text (g a) where
  nonNull _ := rfl
  integral a := by simp [Integral,text,numbers]
  distinct a := by simp [text,Distinct]
  inj a b hab := by
    rw [text,text,arranged,arranged,arrange,arrange,str.injEq] at hab
    exact h hab

theorem faithful_nat {g : α → ℕ} (h : Function.Injective g) (hg : ∀ a, g a<2^64) : Faithful fun a => nat (g a) where
  nonNull _ := rfl
  integral a := by
    intro n hn
    rw [nat,numbers,List.mem_singleton] at hn
    subst hn
    exact ⟨hg a,rfl⟩
  distinct a := by simp [nat,Distinct]
  inj a b hab := by
    rw [nat,nat,arranged,arranged,arrange,arrange,num.injEq,Canonical.Execd.Number.posInt.injEq] at hab
    exact h hab

theorem faithful_bool : Faithful fun b => Tree.bool b where
  nonNull _ := rfl
  integral b := by simp [Integral,numbers]
  distinct b := by simp [Distinct]
  inj a b hab := by
    rw [arranged,arranged,arrange,arrange,bool.injEq] at hab
    exact hab

theorem faithful_decimal : Faithful decimal := by
  apply faithful_text
  rintro ⟨s,hs⟩ ⟨t,ht⟩ rfl
  rfl

end

theorem faithful_string : Faithful text := faithful_text (g := id) fun _ _ h => h

/-! Enumerations. -/

theorem asStr_product : Function.Injective Product.asStr := by
  intro a b h
  cases a <;> cases b <;> first | rfl | exact absurd h (by decide)

theorem asStr_side : Function.Injective Side.asStr := by
  intro a b h
  cases a <;> cases b <;> first | rfl | exact absurd h (by decide)

theorem asStr_positionSide : Function.Injective PositionSide.asStr := by
  intro a b h
  cases a <;> cases b <;> first | rfl | exact absurd h (by decide)

theorem asStr_positionMode : Function.Injective PositionMode.asStr := by
  intro a b h
  cases a <;> cases b <;> first | rfl | exact absurd h (by decide)

theorem asStr_orderType : Function.Injective OrderType.asStr := by
  intro a b h
  cases a <;> cases b <;> first | rfl | exact absurd h (by decide)

theorem asStr_protectionOrderType : Function.Injective ProtectionOrderType.asStr := by
  intro a b h
  cases a <;> cases b <;> first | rfl | exact absurd h (by decide)

theorem asStr_timeInForce : Function.Injective TimeInForce.asStr := by
  intro a b h
  cases a <;> cases b <;> first | rfl | exact absurd h (by decide)

theorem asStr_marginType : Function.Injective MarginType.asStr := by
  intro a b h
  cases a <;> cases b <;> first | rfl | exact absurd h (by decide)

theorem asStr_workingType : Function.Injective WorkingType.asStr := by
  intro a b h
  cases a <;> cases b <;> first | rfl | exact absurd h (by decide)

theorem asStr_accountRef : Function.Injective AccountRef.asStr := by
  intro a b h
  cases a <;> cases b <;> first | rfl | exact absurd h (by decide)

theorem asStr_wallet : Function.Injective Wallet.asStr := by
  intro a b h
  cases a <;> cases b <;> first | rfl | exact absurd h (by decide)

theorem faithful_product : Faithful fun x : Product => text x.asStr := faithful_text asStr_product

theorem faithful_side : Faithful fun x : Side => text x.asStr := faithful_text asStr_side

theorem faithful_positionSide : Faithful fun x : PositionSide => text x.asStr := faithful_text asStr_positionSide

theorem faithful_positionMode : Faithful fun x : PositionMode => text x.asStr := faithful_text asStr_positionMode

theorem faithful_orderType : Faithful fun x : OrderType => text x.asStr := faithful_text asStr_orderType

theorem faithful_protectionOrderType : Faithful fun x : ProtectionOrderType => text x.asStr := faithful_text asStr_protectionOrderType

theorem faithful_timeInForce : Faithful fun x : TimeInForce => text x.asStr := faithful_text asStr_timeInForce

theorem faithful_marginType : Faithful fun x : MarginType => text x.asStr := faithful_text asStr_marginType

theorem faithful_workingType : Faithful fun x : WorkingType => text x.asStr := faithful_text asStr_workingType

theorem faithful_accountRef : Faithful fun x : AccountRef => text x.asStr := faithful_text asStr_accountRef

theorem faithful_wallet : Faithful fun x : Wallet => text x.asStr := faithful_text asStr_wallet

/-! Parts of a plan. -/

/-- Fields that the canonical form of an object keeps apart. -/
structure FaithfulFields {α : Type} (keys : List String) (f : α → List (String × Option Doc)) : Prop where
  keys : ∀ a, (f a).map Prod.fst=keys
  proper : ∀ a, ∀ m ∈ f a, Proper m.2
  inj : ∀ a b, arrangeFields (f a)=arrangeFields (f b) → a=b

theorem FaithfulFields.object {α : Type} {keys : List String} {f : α → List (String × Option Doc)}
    (h : FaithfulFields keys f) (hn : keys.Nodup) : Faithful fun a => object (f a) where
  nonNull _ := rfl
  integral a := integral_object fun m hm => (h.proper a m hm).integral
  distinct a := distinct_object (by rwa [h.keys]) fun m hm => (h.proper a m hm).distinct
  inj a b hab := h.inj a b (object_inj (by rw [h.keys,h.keys]) (by rwa [h.keys])
    (fun m hm => (h.proper a m hm).nonNull) (fun m hm => (h.proper b m hm).nonNull) hab)

theorem faithful_leg : FaithfulFields ["order_type","trigger_price","price","qty","working_type",
    "close_position"] protectionLeg where
  keys _ := rfl
  proper l := by
    simp only [protectionLeg,List.forall_mem_cons]
    exact ⟨faithful_protectionOrderType.proper_some,faithful_decimal.proper_some,
      faithful_decimal.proper_option,faithful_decimal.proper_option,
      faithful_workingType.proper_some,faithful_bool.proper_some,by simp⟩
  inj a b h := by
    simp only [protectionLeg,arrangeFields,List.map_cons,List.map_nil,List.cons.injEq,
      Prod.mk.injEq,true_and,and_true,faithful_string.some_iff,
      asStr_protectionOrderType.eq_iff,faithful_decimal.some_iff,faithful_decimal.option_iff,
      asStr_workingType.eq_iff,
      faithful_bool.some_iff] at h
    obtain ⟨⟩ := a
    obtain ⟨⟩ := b
    rw [ProtectionLeg.mk.injEq]
    exact h

theorem faithful_protectionLeg : Faithful fun l => object (protectionLeg l) :=
  FaithfulFields.object faithful_leg (by decide)

theorem faithful_protectionLegs : Faithful protectionLegs := Faithful.arr faithful_protectionLeg

theorem faithful_protectionFields : FaithfulFields ["stop","take_profits"] protection where
  keys _ := rfl
  proper p := by
    simp only [protection,List.forall_mem_cons]
    exact ⟨Faithful.proper_option faithful_protectionLeg,Faithful.proper_some faithful_protectionLegs,by simp⟩
  inj a b h := by
    simp only [protection,arrangeFields,List.map_cons,List.map_nil,List.cons.injEq,
      Prod.mk.injEq,true_and,and_true,Faithful.option_iff faithful_protectionLeg,
      Faithful.some_iff faithful_protectionLegs] at h
    obtain ⟨⟩ := a
    obtain ⟨⟩ := b
    rw [Protection.mk.injEq]
    exact h

theorem faithful_protection : Faithful fun p => object (protection p) :=
  FaithfulFields.object faithful_protectionFields (by decide)

theorem faithful_leverage : Faithful fun n : UInt8 => nat n.toNat :=
  faithful_nat (fun _ _ h => UInt8.toNat_inj.mp h) fun n => n.toNat_lt.trans (by decide)

theorem faithful_seconds : Faithful fun n : UInt32 => nat n.toNat :=
  faithful_nat (fun _ _ h => UInt32.toNat_inj.mp h) fun n => n.toNat_lt.trans (by decide)

/-! Kinds of plans. -/

theorem faithful_order : FaithfulFields ["product","symbol","side","position_side","position_mode",
    "order_type","qty","price","time_in_force","reduce_only","close_position","leverage",
    "margin_type","trigger_price","working_type","protection","max_naked_seconds"]
    orderEconomics where
  keys _ := rfl
  proper e := by
    simp only [orderEconomics,List.forall_mem_cons]
    exact ⟨faithful_product.proper_some,faithful_string.proper_some,faithful_side.proper_some,
      faithful_positionSide.proper_some,faithful_positionMode.proper_some,
      faithful_orderType.proper_some,faithful_decimal.proper_some,faithful_decimal.proper_option,
      faithful_timeInForce.proper_option,faithful_bool.proper_some,faithful_bool.proper_some,
      Faithful.proper_option faithful_leverage,faithful_marginType.proper_option,
      faithful_decimal.proper_option,faithful_workingType.proper_option,
      Faithful.proper_some faithful_protection,Faithful.proper_some faithful_seconds,by simp⟩
  inj a b h := by
    simp only [orderEconomics,arrangeFields,List.map_cons,List.map_nil,List.cons.injEq,
      Prod.mk.injEq,true_and,and_true,asStr_product.eq_iff,faithful_string.some_iff,
      asStr_side.eq_iff,asStr_positionSide.eq_iff,asStr_positionMode.eq_iff,
      asStr_orderType.eq_iff,faithful_decimal.some_iff,faithful_decimal.option_iff,
      faithful_timeInForce.option_iff,faithful_bool.some_iff,Faithful.option_iff faithful_leverage,
      faithful_marginType.option_iff,faithful_workingType.option_iff,
      Faithful.some_iff faithful_protection,Faithful.some_iff faithful_seconds] at h
    obtain ⟨⟩ := a
    obtain ⟨⟩ := b
    rw [OrderEconomics.mk.injEq]
    exact h

theorem faithful_protect : FaithfulFields ["product","symbol","position_side","legs",
    "replace_order_ids"] protectEconomics where
  keys _ := rfl
  proper e := by
    simp only [protectEconomics,List.forall_mem_cons]
    exact ⟨faithful_product.proper_some,faithful_string.proper_some,
      faithful_positionSide.proper_some,Faithful.proper_some faithful_protectionLegs,
      faithful_string.arr.proper_some,by simp⟩
  inj a b h := by
    simp only [protectEconomics,texts,arrangeFields,List.map_cons,List.map_nil,List.cons.injEq,
      Prod.mk.injEq,true_and,and_true,asStr_product.eq_iff,faithful_string.some_iff,
      asStr_positionSide.eq_iff,Faithful.some_iff faithful_protectionLegs,
      faithful_string.arr.some_iff] at h
    obtain ⟨⟩ := a
    obtain ⟨⟩ := b
    rw [ProtectEconomics.mk.injEq]
    exact h

theorem faithful_cancel : FaithfulFields ["product","symbol","exchange_order_id","client_order_id"]
    cancelEconomics where
  keys _ := rfl
  proper e := by
    simp only [cancelEconomics,List.forall_mem_cons]
    exact ⟨faithful_product.proper_some,faithful_string.proper_some,faithful_string.proper_option,
      faithful_string.proper_option,by simp⟩
  inj a b h := by
    simp only [cancelEconomics,arrangeFields,List.map_cons,List.map_nil,List.cons.injEq,
      Prod.mk.injEq,true_and,and_true,asStr_product.eq_iff,faithful_string.some_iff,
      faithful_string.option_iff] at h
    obtain ⟨⟩ := a
    obtain ⟨⟩ := b
    rw [CancelEconomics.mk.injEq]
    exact h

theorem faithful_transfer : FaithfulFields ["asset","amount","from_account","from_wallet",
    "to_account","to_wallet"] transferEconomics where
  keys _ := rfl
  proper e := by
    simp only [transferEconomics,List.forall_mem_cons]
    exact ⟨faithful_string.proper_some,faithful_decimal.proper_some,
      faithful_accountRef.proper_some,faithful_wallet.proper_some,faithful_accountRef.proper_some,
      faithful_wallet.proper_some,by simp⟩
  inj a b h := by
    simp only [transferEconomics,arrangeFields,List.map_cons,List.map_nil,List.cons.injEq,
      Prod.mk.injEq,true_and,and_true,faithful_string.some_iff,faithful_decimal.some_iff,
      asStr_accountRef.eq_iff,asStr_wallet.eq_iff] at h
    obtain ⟨⟩ := a
    obtain ⟨⟩ := b
    rw [TransferEconomics.mk.injEq]
    exact h

/-- The kind as the first of the fields. -/
def tagged (kind : String) (fs : List (String × Option Doc)) : List (String × Option Doc) :=
  ("kind",some (text kind))::fs

section
variable {α β : Type} {ks ls : List String} {f : α → List (String × Option Doc)}
  {g : β → List (String × Option Doc)} {kind other : String}

theorem FaithfulFields.tagged (h : FaithfulFields ks f) (kind : String) :
    FaithfulFields ("kind"::ks) fun a => tagged kind (f a) where
  keys a := congrArg ("kind"::·) (h.keys a)
  proper a := List.forall_mem_cons.mpr ⟨faithful_string.proper_some,h.proper a⟩
  inj a b hab := h.inj a b (List.cons.inj hab).2

/-- Plans of two kinds do not look alike. -/
theorem FaithfulFields.kind_eq (hf : FaithfulFields ks f) (hg : FaithfulFields ls g)
    (hk : "kind" ∉ ls) {a : α} {b : β}
    (h : (Wire.object (Wire.tagged kind (f a))).arranged =
      (Wire.object (Wire.tagged other (g b))).arranged) :
    kind=other := by
  apply faithful_string.inj
  refine object_head (fun m hm => ((hf.tagged kind).proper a m hm).nonNull)
    (fun m hm => ((hg.tagged other).proper b m hm).nonNull) ?_ h
  rwa [hg.keys]

end

theorem faithful_planEconomics : Faithful planEconomics where
  nonNull e := by cases e <;> rfl
  integral e := by
    cases e with
    | order e => exact ((faithful_order.tagged "order").object (by decide)).integral e
    | protect e => exact ((faithful_protect.tagged "protect").object (by decide)).integral e
    | cancel e => exact ((faithful_cancel.tagged "cancel").object (by decide)).integral e
    | transfer e => exact ((faithful_transfer.tagged "transfer").object (by decide)).integral e
  distinct e := by
    cases e with
    | order e => exact ((faithful_order.tagged "order").object (by decide)).distinct e
    | protect e => exact ((faithful_protect.tagged "protect").object (by decide)).distinct e
    | cancel e => exact ((faithful_cancel.tagged "cancel").object (by decide)).distinct e
    | transfer e => exact ((faithful_transfer.tagged "transfer").object (by decide)).distinct e
  inj a b h := by
    cases a with
    | order a =>
      cases b with
      | order b => rw [((faithful_order.tagged "order").object (by decide)).inj a b h]
      | protect b => exact absurd (faithful_order.kind_eq faithful_protect (by decide) h) (by decide)
      | cancel b => exact absurd (faithful_order.kind_eq faithful_cancel (by decide) h) (by decide)
      | transfer b => exact absurd (faithful_order.kind_eq faithful_transfer (by decide) h) (by decide)
    | protect a =>
      cases b with
      | order b => exact absurd (faithful_protect.kind_eq faithful_order (by decide) h) (by decide)
      | protect b => rw [((faithful_protect.tagged "protect").object (by decide)).inj a b h]
      | cancel b => exact absurd (faithful_protect.kind_eq faithful_cancel (by decide) h) (by decide)
      | transfer b =>
        exact absurd (faithful_protect.kind_eq faithful_transfer (by decide) h) (by decide)
    | cancel a =>
      cases b with
      | order b => exact absurd (faithful_cancel.kind_eq faithful_order (by decide) h) (by decide)
      | protect b => exact absurd (faithful_cancel.kind_eq faithful_protect (by decide) h) (by decide)
      | cancel b => rw [((faithful_cancel.tagged "cancel").object (by decide)).inj a b h]
      | transfer b => exact absurd (faithful_cancel.kind_eq faithful_transfer (by decide) h) (by decide)
    | transfer a =>
      cases b with
      | order b => exact absurd (faithful_transfer.kind_eq faithful_order (by decide) h) (by decide)
      | protect b =>
        exact absurd (faithful_transfer.kind_eq faithful_protect (by decide) h) (by decide)
      | cancel b => exact absurd (faithful_transfer.kind_eq faithful_cancel (by decide) h) (by decide)
      | transfer b => rw [((faithful_transfer.tagged "transfer").object (by decide)).inj a b h]

end Wire

namespace PlanEconomics

/-- The plan as JSON. -/
def toValue (p : PlanEconomics) : Canonical.Execd.Value where
  tree := Wire.planEconomics p
  distinct := Wire.faithful_planEconomics.distinct p
  valid x hx := (Wire.faithful_planEconomics.integral p x hx).1

theorem canonicalJsonOf_eq (p : PlanEconomics) :
    p.canonicalJsonOf=some (p.toValue.tree.arranged.text Canonical.Execd.Number.text) :=
  (Canonical.Execd.Value.canonicalJson_eq_some (v := p.toValue)).mpr ⟨Wire.faithful_planEconomics.integral p,rfl⟩

/-- Different plans have different canonical texts. -/
theorem canonicalJsonOf_inj {p q : PlanEconomics} {a : String} (hp : p.canonicalJsonOf=some a)
    (hq : q.canonicalJsonOf=some a) : p=q := by
  have hsame : Same p.toValue.tree q.toValue.tree :=
    (Canonical.Execd.Value.canonicalJson_eq_iff (v := p.toValue) (w := q.toValue) hp hq).mp rfl
  apply Wire.faithful_planEconomics.inj
  exact (same_iff p.toValue.distinct q.toValue.distinct).mp hsame

/-- The digests of the two plans' texts are different where the texts are. -/
def Apart (sha256Hex : String → String) (p q : PlanEconomics) : Prop :=
  ∀ a ∈ p.canonicalJsonOf, ∀ b ∈ q.canonicalJsonOf, sha256Hex a=sha256Hex b → a=b

instance (sha256Hex : String → String) (p q : PlanEconomics) : Decidable (Apart sha256Hex p q) :=
  inferInstanceAs (Decidable (∀ a ∈ p.canonicalJsonOf, ∀ b ∈ q.canonicalJsonOf, _))

theorem planHash_eq_iff {sha256Hex : String → String} {p q : PlanEconomics} (h : Apart sha256Hex p q) :
    p.planHash sha256Hex=q.planHash sha256Hex ↔ p=q := by
  constructor
  · intro hpq
    unfold planHash at hpq
    unfold Apart at h
    rw [canonicalJsonOf_eq,canonicalJsonOf_eq] at hpq h
    have htext := h _ rfl _ rfl (Option.some.inj hpq)
    apply canonicalJsonOf_inj (canonicalJsonOf_eq p)
    rw [canonicalJsonOf_eq,htext]
  · exact fun hpq => hpq ▸ rfl

end PlanEconomics

/-- Canonical JSON is one text for all values that are alike and for no others, it is its own
canonical text, and the hash of a plan stands for the plan. -/
theorem canonicalJson_canonical :
    (∀ (v w : Canonical.Execd.Value) (a b : String), v.canonicalJson=some a → w.canonicalJson=some b →
      (a=b ↔ Same v.tree w.tree)) ∧
    (∀ (v : Canonical.Execd.Value) (a : String), v.canonicalJson=some a →
      (∃ j : Json, j.text=a) ∧ ∀ j : Json, j.text=a → Canonical.Execd.canonicalJson j=some a) ∧
    ∀ sha256Hex : String → String,
      (∀ p q : PlanEconomics, PlanEconomics.Apart sha256Hex p q →
        (p.planHash sha256Hex=q.planHash sha256Hex ↔ p=q)) ∧
      ∀ (p : PlanEconomics) (v : Canonical.Execd.Value), Same v.tree (Wire.planEconomics p) →
        v.canonicalJson.map sha256Hex=p.planHash sha256Hex := by
  refine ⟨fun v w a b => Canonical.Execd.Value.canonicalJson_eq_iff,fun v a h => ⟨?_,?_⟩,
    fun sha256Hex => ⟨fun p q => PlanEconomics.planHash_eq_iff,fun p v h => ?_⟩⟩
  · exact Canonical.Execd.Value.exists_json h
  · exact fun j => Canonical.Execd.Value.canonicalJson_reread h
  · rw [Canonical.Execd.Value.canonicalJson_of_same (w := p.toValue) h]
    rfl

/-- The cancellation of an order by its id. -/
def cancelOf (id : String) : PlanEconomics := .cancel ⟨.usdmPerp,"BTCUSDT",some id,none⟩

/-- The SHA-256 of the texts of two cancellations. -/
def cancelDigest (s : String) : String :=
  if s="\x7b\"exchange_order_id\":\"1\",\"kind\":\"cancel\",\"product\":\"usdm_perp\",\"symbol\":\"BTCUSDT\"\x7d"
  then "8d3b38fb1fbfce02d795b33daa1f4d6e195f13f7150bbe3ed12eeaea5549f269"
  else "20c434d68ca5ba4d8148327f27721679a318e6a86344a03a9c12726142516e2e"

/-- A value with a null member, and the same without it. -/
def withNull : Canonical.Execd.Value where
  tree := .obj [("b",.null),("a",.arr [.null])]
  distinct := by simp [Distinct,DistinctMembers,DistinctAll]
  valid := by simp [numbers,numbersAll,numbersMembers]

def withoutNull : Canonical.Execd.Value where
  tree := .obj [("a",.arr [.null])]
  distinct := by simp [Distinct,DistinctMembers,DistinctAll]
  valid := by simp [numbers,numbersAll,numbersMembers]

theorem canonicalJson_canonical_cancel :
    withNull.canonicalJson=some "\x7b\"a\":[null]\x7d" ∧
    Same withNull.tree withoutNull.tree ∧ (∃ j : Json, j.text="\x7b\"a\":[null]\x7d") ∧
    PlanEconomics.Apart cancelDigest (cancelOf "1") (cancelOf "2") ∧
    (cancelOf "1").planHash cancelDigest ≠ (cancelOf "2").planHash cancelDigest ∧
    (cancelOf "2").toValue.canonicalJson.map cancelDigest=(cancelOf "2").planHash cancelDigest := by
  have hv : withNull.canonicalJson=some "\x7b\"a\":[null]\x7d" := by decide +kernel
  have hw : withoutNull.canonicalJson=some "\x7b\"a\":[null]\x7d" := by decide +kernel
  have hapart : PlanEconomics.Apart cancelDigest (cancelOf "1") (cancelOf "2") := by decide +kernel
  refine ⟨hv,?_,?_,hapart,?_,?_⟩
  · exact (canonicalJson_canonical.1 withNull withoutNull _ _ hv hw).mp rfl
  · exact (canonicalJson_canonical.2.1 withNull _ hv).1
  · intro h
    have hpq := ((canonicalJson_canonical.2.2 cancelDigest).1 _ _ hapart).mp h
    revert hpq
    decide
  · exact (canonicalJson_canonical.2.2 cancelDigest).2 (cancelOf "2") _ (.refl _)

end TradeGate.Execd
