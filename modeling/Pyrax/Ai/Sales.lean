import Pyrax.Base.Run
import Pyrax.Ai.Marketplace

/-!
# What the marketplace sold

Over every run of calls each order that was placed keeps its own record at its exact price,
is completed once and after it was paid, the two running sums are the sums over the completed
orders, and no listing sells more than it was created with, exactly when every call meets
its condition (`MarketOp.Careful`, `sold_iff`): an order that is placed gets an id of its own
and a price that fits a word, and an order that is completed is paid, fits the volume, and
finds the stock it takes.
-/

namespace Pyrax.Ai

open Base Word

inductive MarketOp where
  | createListing (listing : Listing)
  | createOrder (listingId : H256) (buyer : Address) (quantity idAt now : UInt64)
  | payOrder (orderId : H256) (now : UInt64)
  | completeOrder (orderId : H256) (deliveryHash : Option H256) (now saleAt : UInt64)

/-- The market, the listings as they were created, the orders as they were returned to the
buyers, and the orders that were paid and completed. -/
structure MarketRun where
  market : AIMarketplace
  listed : Column H256 Listing
  placed : List Order
  paid : List H256
  completed : List H256

variable (blake3 : List UInt8 → H256)

namespace MarketRun

def start : MarketRun := ⟨.new, ∅, [], [], []⟩

def step (t : MarketRun) : MarketOp → MarketRun
  | .createListing listing =>
    match t.market.createListing listing with
    | .ok (id, m) => { t with market := m, listed := t.listed.insert id listing }
    | .error _ => t
  | .createOrder listingId buyer quantity idAt now =>
    match t.market.createOrder blake3 listingId buyer quantity idAt now with
    | .ok (order, m) => { t with market := m, placed := t.placed ++ [order] }
    | .error _ => t
  | .payOrder orderId now =>
    match t.market.payOrder orderId now with
    | .ok m => { t with market := m, paid := t.paid ++ [orderId] }
    | .error _ => t
  | .completeOrder orderId deliveryHash now saleAt =>
    match t.market.completeOrder orderId deliveryHash now saleAt with
    | (.ok (), m) => { t with market := m, completed := t.completed ++ [orderId] }
    -- the market may have changed all the same
    | (.error _, m) => { t with market := m }

def run (ops : List MarketOp) : MarketRun := ops.foldl (step blake3) start

theorem run_snoc (ops : List MarketOp) (op : MarketOp) :
    run blake3 (ops ++ [op]) = (run blake3 ops).step blake3 op := by
  rw [run, List.foldl_append]
  rfl

end MarketRun

/-! ## The law and the condition -/

namespace Order

/-- What was bought, whatever became of the order. -/
def purchase (o : Order) : Order :=
  { o with status := .pending, paidAt := none, completedAt := none, deliveryHash := none }

/-- What a completed order counts for. -/
def whenCompleted (f : Order → Nat) (o : Order) : Nat := if o.status = .completed then f o else 0

def volume : Order → Nat := whenCompleted fun o => o.subtotal.toNat

def fees : Order → Nat := whenCompleted fun o => o.platformFee.toNat

/-- The quantity sold of one listing. -/
def soldOf (listingId : H256) : Order → Nat :=
  whenCompleted fun o => if o.listingId = listingId then o.quantity.toNat else 0

/-- The price of so many without a wrap, and the total as the sum of the two parts. -/
def ExactPrice (l : Listing) (o : Order) : Prop :=
  o.subtotal.toNat = l.price.toNat * o.quantity.toNat ∧
    o.total.toNat = o.subtotal.toNat + o.platformFee.toNat

end Order

structure Sold (t : MarketRun) : Prop where
  distinct : (t.placed.map Order.id).Nodup
  recorded : ∀ o ∈ t.placed, ∃ o', t.market.orders.lookup o.id = some o' ∧ o'.purchase = o
  exact : ∀ o ∈ t.placed, ∃ l, t.listed.lookup o.listingId = some l ∧ o.ExactPrice l
  once : t.completed.Nodup
  afterPaid : ∀ id ∈ t.completed, id ∈ t.paid
  volume : t.market.totalVolume.toNat = Column.total Order.volume t.market.orders
  fees : t.market.totalFees.toNat = Column.total Order.fees t.market.orders
  stock : ∀ id l n, t.listed.lookup id = some l → l.available = some n →
    Column.total (Order.soldOf id) t.market.orders ≤ n.toNat

/-- The checks of `create_order`. -/
def Listing.Sells (l : Listing) (quantity : UInt64) : Prop :=
  l.status = .active ∧ l.minQuantity ≤ quantity ∧
    (0 < l.maxQuantity → quantity ≤ l.maxQuantity) ∧ ∀ avail ∈ l.available, quantity ≤ avail

instance (l : Listing) (quantity : UInt64) : Decidable (l.Sells quantity) :=
  inferInstanceAs (Decidable (_ ∧ _ ∧ _ ∧ _))

/-- The condition on a call, of the market before it. -/
def MarketOp.Careful (m : AIMarketplace) : MarketOp → Prop
  | .createOrder listingId buyer quantity idAt _ => ∀ l ∈ m.listings.lookup listingId,
    l.Sells quantity → Order.newId blake3 listingId buyer idAt ∉ m.orders ∧
      l.price.toNat * quantity.toNat + l.price.toNat * quantity.toNat * platformFeePercent / 100
        < 2 ^ 64
  | .completeOrder orderId _ _ _ => ∀ o ∈ m.orders.lookup orderId, o.status = .paid ∧
    m.totalVolume.toNat + o.subtotal.toNat < 2 ^ 64 ∧
      ∀ l ∈ m.listings.lookup o.listingId, ∀ avail ∈ l.available, o.quantity ≤ avail
  | _ => True

instance MarketOp.decidableCareful (m : AIMarketplace) :
    (op : MarketOp) → Decidable (op.Careful blake3 m)
  | .createListing _ => inferInstanceAs (Decidable True)
  | .createOrder listingId buyer quantity idAt _ =>
    inferInstanceAs (Decidable (∀ l ∈ m.listings.lookup listingId,
      l.Sells quantity → Order.newId blake3 listingId buyer idAt ∉ m.orders ∧
        l.price.toNat * quantity.toNat + l.price.toNat * quantity.toNat * platformFeePercent / 100
          < 2 ^ 64))
  | .payOrder _ _ => inferInstanceAs (Decidable True)
  | .completeOrder orderId _ _ _ =>
    inferInstanceAs (Decidable (∀ o ∈ m.orders.lookup orderId, o.status = .paid ∧
      m.totalVolume.toNat + o.subtotal.toNat < 2 ^ 64 ∧
        ∀ l ∈ m.listings.lookup o.listingId, ∀ avail ∈ l.available, o.quantity ≤ avail))

/-! ## What one call does -/

namespace MarketRun

/-! A run after each kind of call. -/

def listedWith (t : MarketRun) (l : Listing) : MarketRun :=
  { t with
    market := { t.market with listings := t.market.listings.insert l.id l }
    listed := t.listed.insert l.id l }

def placedWith (t : MarketRun) (o : Order) : MarketRun :=
  { t with
    market := { t.market with orders := t.market.orders.insert o.id o }
    placed := t.placed ++ [o] }

def paidWith (t : MarketRun) (id : H256) (o : Order) (now : UInt64) : MarketRun :=
  { t with
    market := { t.market with orders := t.market.orders.insert id (o.markPaid now) }
    paid := t.paid ++ [id] }

def completedWith (t : MarketRun) (id : H256) (o : Order) (l : Listing)
    (deliveryHash : Option H256) (now saleAt : UInt64) : MarketRun :=
  { t with
    market := {
      listings := t.market.listings.insert o.listingId
        (l.recordSale o.quantity o.subtotal saleAt)
      orders := t.market.orders.insert id (o.complete deliveryHash now)
      totalVolume := t.market.totalVolume + o.subtotal
      totalFees := t.market.totalFees + o.platformFee }
    completed := t.completed ++ [id] }

end MarketRun

/-- All a call can do; one that changes nothing meets its condition. -/
inductive MarketOutcome (t : MarketRun) : MarketOp → MarketRun → Prop
  | nothing {op : MarketOp} (hcareful : op.Careful blake3 t.market) : MarketOutcome t op t
  | listed {l : Listing} (hnew : l.id ∉ t.market.listings) :
      MarketOutcome t (.createListing l) (t.listedWith l)
  | placed {listingId : H256} {buyer : Address} {quantity idAt now : UInt64} {l : Listing}
      (hl : t.market.listings.lookup listingId = some l) (hsells : l.Sells quantity) :
      MarketOutcome t (.createOrder listingId buyer quantity idAt now)
        (t.placedWith (.new blake3 l buyer quantity idAt now))
  | paid {id : H256} {now : UInt64} {o : Order} (hp : t.market.orders.lookup id = some o)
      (hstatus : o.status = .pending) : MarketOutcome t (.payOrder id now) (t.paidWith id o now)
  | completed {id : H256} {deliveryHash : Option H256} {now saleAt : UInt64} {o : Order}
      {l : Listing} (hp : t.market.orders.lookup id = some o)
      (hl : t.market.listings.lookup o.listingId = some l) :
      MarketOutcome t (.completeOrder id deliveryHash now saleAt)
        (t.completedWith id o l deliveryHash now saleAt)
  /-- An order whose listing is not there. -/
  | unlisted {id : H256} {deliveryHash : Option H256} {now saleAt : UInt64} {o : Order}
      (hp : t.market.orders.lookup id = some o)
      (hl : t.market.listings.lookup o.listingId = none) :
      MarketOutcome t (.completeOrder id deliveryHash now saleAt)
        { t with market := { t.market with
            orders := t.market.orders.insert id (o.complete deliveryHash now) } }

theorem market_outcome (t : MarketRun) (op : MarketOp) :
    MarketOutcome blake3 t op (t.step blake3 op) := by
  cases op with
  | createListing l =>
    rw [MarketRun.step, AIMarketplace.createListing]
    by_cases hmem : l.id ∈ t.market.listings
    · rw [if_pos hmem]
      exact .nothing trivial
    · rw [if_neg hmem]
      exact .listed hmem
  | createOrder listingId buyer quantity idAt now =>
    rw [MarketRun.step, AIMarketplace.createOrder]
    cases hl : t.market.listings.lookup listingId with
    | none =>
      refine .nothing fun l h => ?_
      rw [hl] at h
      cases h
    | some l =>
      dsimp only
      -- each check that fails is a part of `Sells`
      have hrejects : ¬ l.Sells quantity →
          (MarketOp.createOrder listingId buyer quantity idAt now).Careful blake3 t.market := by
        intro hnot l' h hsells
        cases hl.symm.trans h
        exact absurd hsells hnot
      by_cases hstatus : l.status = .active
      · rw [if_neg (not_not.mpr hstatus)]
        by_cases hmin : quantity < l.minQuantity
        · rw [if_pos hmin]
          exact .nothing (hrejects fun h => absurd hmin (UInt64.not_lt.mpr h.2.1))
        · rw [if_neg hmin]
          by_cases hmax : 0 < l.maxQuantity ∧ l.maxQuantity < quantity
          · rw [if_pos hmax]
            exact .nothing (hrejects fun h => absurd hmax.2 (UInt64.not_lt.mpr (h.2.2.1 hmax.1)))
          · rw [if_neg hmax]
            by_cases havail : ∃ avail ∈ l.available, avail < quantity
            · rw [if_pos havail]
              obtain ⟨avail, hmem, hlt⟩ := havail
              exact .nothing (hrejects fun h =>
                absurd hlt (UInt64.not_lt.mpr (h.2.2.2 avail hmem)))
            · rw [if_neg havail]
              refine .placed hl ⟨hstatus, UInt64.not_lt.mp hmin, fun hpos => ?_, fun avail h => ?_⟩
              · exact UInt64.not_lt.mp fun hlt => hmax ⟨hpos, hlt⟩
              · exact UInt64.not_lt.mp fun hlt => havail ⟨avail, h, hlt⟩
      · rw [if_pos hstatus]
        exact .nothing (hrejects fun h => hstatus h.1)
  | payOrder id now =>
    rw [MarketRun.step, AIMarketplace.payOrder]
    cases hp : t.market.orders.lookup id with
    | none => exact .nothing trivial
    | some o =>
      dsimp only
      by_cases hstatus : o.status = .pending
      · rw [if_neg (not_not.mpr hstatus)]
        exact .paid hp hstatus
      · rw [if_pos hstatus]
        exact .nothing trivial
  | completeOrder id deliveryHash now saleAt =>
    rw [MarketRun.step, AIMarketplace.completeOrder]
    cases hp : t.market.orders.lookup id with
    | none =>
      refine .nothing fun o h => ?_
      rw [hp] at h
      cases h
    | some o =>
      dsimp only
      rw [AIMarketplace.updateListing]
      cases hl : t.market.listings.lookup o.listingId with
      | none => exact .unlisted hp hl
      | some l => exact .completed hp hl

/-! ## What stays as it is while the law holds -/

/-- What the calls on an order made of its status. -/
def Stage (t : MarketRun) (id : H256) : OrderStatus → Prop
  | .pending => id ∉ t.paid ∧ id ∉ t.completed
  | .paid => id ∈ t.paid ∧ id ∉ t.completed
  | .completed => id ∈ t.completed
  | _ => False

/-- An order under its id, placed and priced, with a listing. -/
structure Filed (t : MarketRun) (id : H256) (o : Order) : Prop where
  key : o.id = id
  placed : o.purchase ∈ t.placed
  listing : o.listingId ∈ t.market.listings
  fee : o.platformFee.toNat ≤ o.subtotal.toNat
  stage : Stage t id o.status

/-- A listing as it was created, with the stock that the completed orders left. -/
structure Stocked (orders : Column H256 Order) (id : H256) (l l₀ : Listing) : Prop where
  key : l.id = id
  price : l.price = l₀.price
  available : l.available.map UInt64.toNat
    = l₀.available.map fun n => n.toNat - Column.total (Order.soldOf id) orders

structure Accounted (t : MarketRun) : Prop where
  keys : ∀ id, id ∈ t.listed ↔ id ∈ t.market.listings
  stocked : ∀ id l l₀, t.market.listings.lookup id = some l → t.listed.lookup id = some l₀ →
    Stocked t.market.orders id l l₀
  filed : ∀ id o, t.market.orders.lookup id = some o → Filed t id o
  paid : ∀ id ∈ t.paid, id ∈ t.market.orders

variable {blake3}
variable {t t' : MarketRun} {id : H256} {o o' : Order} {l l₀ : Listing}

namespace Order

theorem whenCompleted_of_not (f : Order → Nat) (h : o.status ≠ .completed) :
    whenCompleted f o = 0 := if_neg h

theorem whenCompleted_complete (f : Order → Nat) (o : Order) (deliveryHash : Option H256)
    (now : UInt64) : whenCompleted f (o.complete deliveryHash now)
      = f (o.complete deliveryHash now) := if_pos rfl

theorem fees_le_volume (h : o.platformFee.toNat ≤ o.subtotal.toNat) : o.fees ≤ o.volume := by
  show (if o.status = .completed then _ else 0) ≤ if o.status = .completed then _ else 0
  split
  · exact h
  · exact le_refl 0

theorem toNat_platformFee_new (l : Listing) (buyer : Address) (quantity idAt now : UInt64) :
    (new blake3 l buyer quantity idAt now).platformFee.toNat
      = (new blake3 l buyer quantity idAt now).subtotal.toNat * platformFeePercent / 100 := by
  show (UInt64.ofNat _).toNat = _
  refine UInt64.toNat_ofNat_of_lt' ?_
  have hlt := (new blake3 l buyer quantity idAt now).subtotal.toNat_lt
  have hfee : (new blake3 l buyer quantity idAt now).subtotal.toNat * platformFeePercent / 100
      ≤ (new blake3 l buyer quantity idAt now).subtotal.toNat := by
    rw [platformFeePercent]
    omega
  exact lt_of_le_of_lt hfee hlt

theorem platformFee_new_le (l : Listing) (buyer : Address) (quantity idAt now : UInt64) :
    (new blake3 l buyer quantity idAt now).platformFee.toNat
      ≤ (new blake3 l buyer quantity idAt now).subtotal.toNat := by
  rw [toNat_platformFee_new, platformFeePercent]
  omega

/-- The price fits a word exactly when the price and the fee on it do. -/
theorem exactPrice_new_iff (hprice : l.price = l₀.price) (buyer : Address)
    (quantity idAt now : UInt64) : (new blake3 l buyer quantity idAt now).ExactPrice l₀ ↔
      l.price.toNat * quantity.toNat + l.price.toNat * quantity.toNat * platformFeePercent / 100
        < 2 ^ 64 := by
  have hfee := @toNat_platformFee_new blake3 l buyer quantity idAt now
  have hsub : (new blake3 l buyer quantity idAt now).subtotal.toNat
      = l.price.toNat * quantity.toNat % 2 ^ 64 := UInt64.toNat_mul _ _
  have htotal : (new blake3 l buyer quantity idAt now).total.toNat
      = ((new blake3 l buyer quantity idAt now).subtotal.toNat
        + (new blake3 l buyer quantity idAt now).platformFee.toNat) % 2 ^ 64 := UInt64.toNat_add _ _
  unfold ExactPrice
  rw [htotal, hfee, hsub, ← hprice]
  show (_ = l.price.toNat * quantity.toNat ∧ _) ↔ _
  generalize l.price.toNat * quantity.toNat = p
  rw [platformFeePercent]
  constructor
  · rintro ⟨hp, ht⟩
    have hlt : (p % 2 ^ 64 + p % 2 ^ 64 * 2 / 100) % 2 ^ 64 < 2 ^ 64 := Nat.mod_lt _ (by decide)
    rw [ht, hp] at hlt
    exact hlt
  · intro h
    have hp : p % 2 ^ 64 = p := Nat.mod_eq_of_lt (by omega)
    rw [hp]
    exact ⟨rfl, Nat.mod_eq_of_lt h⟩

end Order

theorem Accounted.lookup_listed (h : Accounted t) (hl : t.market.listings.lookup id = some l) :
    ∃ l₀, t.listed.lookup id = some l₀ ∧ Stocked t.market.orders id l l₀ := by
  obtain ⟨l₀, hl₀⟩ := Finmap.mem_iff.mp ((h.keys id).mpr (Finmap.mem_of_lookup_eq_some hl))
  exact ⟨l₀, hl₀, h.stocked id l l₀ hl hl₀⟩

theorem Accounted.lookup_order_listing (h : Accounted t) (hp : t.market.orders.lookup id = some o) :
    t.market.listings.lookup o.listingId ≠ none :=
  fun hnone => absurd (h.filed id o hp).listing (Finmap.lookup_eq_none.mp hnone)

/-- The orders whose ids are taken are the placed ones. -/
theorem Accounted.mem_orders_iff (h : Accounted t) (hs : Sold t) :
    id ∈ t.market.orders ↔ id ∈ t.placed.map Order.id := by
  constructor
  · intro hmem
    obtain ⟨o, hp⟩ := Finmap.mem_iff.mp hmem
    exact List.mem_map.mpr ⟨o.purchase, (h.filed id o hp).placed, (h.filed id o hp).key⟩
  · intro hmem
    obtain ⟨o, ho, rfl⟩ := List.mem_map.mp hmem
    obtain ⟨o', hp, -⟩ := hs.recorded o ho
    exact Finmap.mem_of_lookup_eq_some hp

/-- An order that takes the place of one with the same purchase leaves all records. -/
theorem Sold.recorded_insert (hs : Sold t) (hp : t.market.orders.lookup id = some o)
    (hsame : o'.purchase = o.purchase) : ∀ p ∈ t.placed,
      ∃ p', (t.market.orders.insert id o').lookup p.id = some p' ∧ p'.purchase = p := by
  intro p hmem
  obtain ⟨p', hp', hpur⟩ := hs.recorded p hmem
  by_cases hid : p.id = id
  · rw [hid, hp] at hp'
    cases hp'
    exact ⟨o', by rw [hid, Finmap.lookup_insert], hsame.trans hpur⟩
  · exact ⟨p', by rw [Finmap.lookup_insert_of_ne _ hid, hp'], hpur⟩

/-! ## A listing, an order, a payment -/

/-- No order is for a listing that is not there. -/
theorem Accounted.soldOf_eq_zero (h : Accounted t) (hnew : id ∉ t.market.listings) :
    Column.total (Order.soldOf id) t.market.orders = 0 := by
  refine Column.total_eq_zero fun k o hp => ?_
  have hne : o.listingId ≠ id := fun heq => hnew (heq ▸ (h.filed k o hp).listing)
  show (if o.status = .completed then _ else 0) = 0
  rw [if_neg hne, ite_self]

theorem listed_law (hs : Sold t) (h : Accounted t) (hnew : l.id ∉ t.market.listings) :
    Sold (t.listedWith l) := by
  have hold : ∀ {id l'}, t.listed.lookup id = some l' →
      (t.listed.insert l.id l).lookup id = some l' := by
    intro id l' hl'
    rw [Finmap.lookup_insert_of_ne _ fun heq => hnew ?_, hl']
    exact (h.keys _).mp (heq ▸ Finmap.mem_of_lookup_eq_some hl')
  refine ⟨hs.distinct, hs.recorded, fun o ho => ?_, hs.once, hs.afterPaid, hs.volume, hs.fees,
    fun id l' n hl' hn => ?_⟩
  · obtain ⟨l', hl', hexact⟩ := hs.exact o ho
    exact ⟨l', hold hl', hexact⟩
  · by_cases hid : id = l.id
    · exact (h.soldOf_eq_zero (hid ▸ hnew)).le.trans (Nat.zero_le _)
    · exact hs.stock id l' n ((Finmap.lookup_insert_of_ne _ hid).symm.trans hl') hn

theorem listed_kept (h : Accounted t) (hnew : l.id ∉ t.market.listings) :
    Accounted (t.listedWith l) := by
  refine ⟨fun id => ?_, fun id l' l₀ hl' hl₀ => ?_, fun id o hp => ?_, h.paid⟩
  · rw [MarketRun.listedWith, Finmap.mem_insert, Finmap.mem_insert, h.keys]
  · by_cases hid : id = l.id
    · subst hid
      cases (Finmap.lookup_insert _).symm.trans hl'
      cases (Finmap.lookup_insert _).symm.trans hl₀
      refine ⟨rfl, rfl, ?_⟩
      show _ = l.available.map fun n =>
        n.toNat - Column.total (Order.soldOf l.id) t.market.orders
      rw [h.soldOf_eq_zero hnew]
      rfl
    · exact h.stocked id l' l₀ ((Finmap.lookup_insert_of_ne _ hid).symm.trans hl')
        ((Finmap.lookup_insert_of_ne _ hid).symm.trans hl₀)
  · have hf := h.filed id o hp
    exact ⟨hf.key, hf.placed, Finmap.mem_insert.mpr (Or.inr hf.listing), hf.fee, hf.stage⟩

/-- An order that is new and not completed changes no sum. -/
theorem total_placed (f : Order → Nat) (hnew : o.id ∉ t.market.orders)
    (hstatus : o.status ≠ .completed) :
    Column.total (Order.whenCompleted f) (t.market.orders.insert o.id o)
      = Column.total (Order.whenCompleted f) t.market.orders := by
  rw [Column.total_insert_of_notMem _ _ hnew, Order.whenCompleted_of_not f hstatus, Nat.zero_add]

/-- An order that is placed with an id and a price of its own. -/
theorem placed_law (hs : Sold t) (h : Accounted t) (hnew : o.id ∉ t.market.orders)
    (hstatus : o.status ≠ .completed) (hpurchase : o.purchase = o)
    (hexact : ∃ l, t.listed.lookup o.listingId = some l ∧ o.ExactPrice l) :
    Sold (t.placedWith o) where
  distinct := by
    show ((t.placed ++ [o]).map Order.id).Nodup
    rw [List.map_append]
    refine List.nodup_append.mpr ⟨hs.distinct, List.nodup_singleton _, fun id hid id' hid' => ?_⟩
    rintro rfl
    rw [List.mem_singleton.mp hid'] at hid
    exact hnew ((h.mem_orders_iff hs).mpr hid)
  recorded := by
    intro p hmem
    rcases List.mem_append.mp hmem with hold | hp
    · obtain ⟨p', hp', hpur⟩ := hs.recorded p hold
      refine ⟨p', ?_, hpur⟩
      show (t.market.orders.insert o.id o).lookup p.id = some p'
      rw [Finmap.lookup_insert_of_ne _ fun heq => hnew ?_, hp']
      exact heq ▸ Finmap.mem_of_lookup_eq_some hp'
    · rw [List.mem_singleton.mp hp]
      exact ⟨o, Finmap.lookup_insert _, hpurchase⟩
  exact := by
    intro p hmem
    rcases List.mem_append.mp hmem with hold | hp
    · exact hs.exact p hold
    · rw [List.mem_singleton.mp hp]
      exact hexact
  once := hs.once
  afterPaid := hs.afterPaid
  volume := hs.volume.trans (total_placed _ hnew hstatus).symm
  fees := hs.fees.trans (total_placed _ hnew hstatus).symm
  stock := fun id l n hl hn => (total_placed _ hnew hstatus).le.trans (hs.stock id l n hl hn)

theorem placed_kept (hs : Sold t) (h : Accounted t) (hnew : o.id ∉ t.market.orders)
    (hstatus : o.status = .pending) (hpurchase : o.purchase = o)
    (hlisting : o.listingId ∈ t.market.listings)
    (hfee : o.platformFee.toNat ≤ o.subtotal.toNat) : Accounted (t.placedWith o) := by
  have hpaid : o.id ∉ t.paid := fun hmem => hnew (h.paid _ hmem)
  refine ⟨h.keys, fun id l l₀ hl hl₀ => ?_, fun id p hp => ?_, fun id hid => ?_⟩
  · obtain ⟨hkey, hprice, havailable⟩ := h.stocked id l l₀ hl hl₀
    refine ⟨hkey, hprice, ?_⟩
    show _ = l₀.available.map fun n => n.toNat
      - Column.total (Order.soldOf id) (t.market.orders.insert o.id o)
    rw [Order.soldOf, total_placed _ hnew (by rw [hstatus]; exact OrderStatus.noConfusion)]
    exact havailable
  · by_cases hid : id = o.id
    · subst hid
      cases (Finmap.lookup_insert _).symm.trans hp
      refine ⟨rfl, List.mem_append_right _ (List.mem_singleton.mpr hpurchase), hlisting, hfee, ?_⟩
      rw [hstatus]
      exact ⟨hpaid, fun hmem => hpaid (hs.afterPaid _ hmem)⟩
    · have hf := h.filed id p ((Finmap.lookup_insert_of_ne _ hid).symm.trans hp)
      exact ⟨hf.key, List.mem_append_left _ hf.placed, hf.listing, hf.fee, hf.stage⟩
  · exact Finmap.mem_insert.mpr (Or.inr (h.paid id hid))

/-- An order that takes the place of one, when neither is completed, changes no sum. -/
theorem total_unfinished (f : Order → Nat) (hp : t.market.orders.lookup id = some o)
    (hstatus : o.status ≠ .completed) (hstatus' : o'.status ≠ .completed) :
    Column.total (Order.whenCompleted f) (t.market.orders.insert id o')
      = Column.total (Order.whenCompleted f) t.market.orders := by
  have hreplace := Column.total_replace (Order.whenCompleted f) hp o'
  rw [Order.whenCompleted_of_not f hstatus, Order.whenCompleted_of_not f hstatus'] at hreplace
  exact hreplace

theorem paid_law (hs : Sold t) (hp : t.market.orders.lookup id = some o)
    (hstatus : o.status = .pending) (now : UInt64) : Sold (t.paidWith id o now) := by
  have hpending : o.status ≠ .completed := by
    rw [hstatus]
    exact OrderStatus.noConfusion
  have hpaid : (o.markPaid now).status ≠ .completed := OrderStatus.noConfusion
  refine ⟨hs.distinct, hs.recorded_insert hp rfl, hs.exact, hs.once,
    fun id' hid' => List.mem_append_left _ (hs.afterPaid id' hid'),
    hs.volume.trans (total_unfinished _ hp hpending hpaid).symm,
    hs.fees.trans (total_unfinished _ hp hpending hpaid).symm, fun id' l n hl hn => ?_⟩
  exact (total_unfinished _ hp hpending hpaid).le.trans (hs.stock id' l n hl hn)

theorem paid_kept (h : Accounted t) (hp : t.market.orders.lookup id = some o)
    (hstatus : o.status = .pending) (now : UInt64) : Accounted (t.paidWith id o now) := by
  have hpending : o.status ≠ .completed := by
    rw [hstatus]
    exact OrderStatus.noConfusion
  have hf := h.filed id o hp
  refine ⟨h.keys, fun id' l l₀ hl hl₀ => ?_, fun id' p hp' => ?_, fun id' hid' => ?_⟩
  · obtain ⟨hkey, hprice, havailable⟩ := h.stocked id' l l₀ hl hl₀
    refine ⟨hkey, hprice, ?_⟩
    show _ = l₀.available.map fun n => n.toNat
      - Column.total (Order.soldOf id') (t.market.orders.insert id (o.markPaid now))
    rw [Order.soldOf, total_unfinished _ hp hpending OrderStatus.noConfusion]
    exact havailable
  · by_cases hid : id' = id
    · subst hid
      cases (Finmap.lookup_insert _).symm.trans hp'
      have hstage := hf.stage
      rw [hstatus] at hstage
      exact ⟨hf.key, hf.placed, hf.listing, hf.fee,
        List.mem_append_right _ (List.mem_singleton_self _), hstage.2⟩
    · have hf' := h.filed id' p ((Finmap.lookup_insert_of_ne _ hid).symm.trans hp')
      refine ⟨hf'.key, hf'.placed, hf'.listing, hf'.fee, ?_⟩
      have hstage := hf'.stage
      cases hps : p.status <;> rw [hps] at hstage
      case pending => exact ⟨fun hmem => (List.mem_append.mp hmem).elim hstage.1
        fun hmem => hid (List.mem_singleton.mp hmem), hstage.2⟩
      case paid => exact ⟨List.mem_append_left _ hstage.1, hstage.2⟩
      all_goals exact hstage
  · rcases List.mem_append.mp hid' with hold | hnew
    · exact Finmap.mem_insert.mpr (Or.inr (h.paid id' hold))
    · exact Finmap.mem_insert.mpr (Or.inl (List.mem_singleton.mp hnew))

/-! ## A completion -/

section Completion

variable (deliveryHash : Option H256) (now saleAt : UInt64)

/-- An order that was not completed adds what it counts for. -/
theorem total_completed (f : Order → Nat) (hp : t.market.orders.lookup id = some o)
    (hstatus : o.status ≠ .completed) :
    Column.total (Order.whenCompleted f) (t.market.orders.insert id (o.complete deliveryHash now))
      = Column.total (Order.whenCompleted f) t.market.orders
        + f (o.complete deliveryHash now) := by
  have hreplace := Column.total_replace (Order.whenCompleted f) hp (o.complete deliveryHash now)
  rw [Order.whenCompleted_of_not f hstatus, Order.whenCompleted_complete] at hreplace
  exact hreplace

theorem soldOf_completed (listingId : H256) (hp : t.market.orders.lookup id = some o)
    (hstatus : o.status ≠ .completed) :
    Column.total (Order.soldOf listingId)
        (t.market.orders.insert id (o.complete deliveryHash now))
      = Column.total (Order.soldOf listingId) t.market.orders
        + if o.listingId = listingId then o.quantity.toNat else 0 :=
  total_completed deliveryHash now _ hp hstatus

/-- The stock of a listing covers a quantity exactly when what is left does. -/
theorem Stocked.covers_iff {orders : Column H256 Order} (h : Stocked orders id l l₀)
    (hfits : ∀ n, l₀.available = some n → Column.total (Order.soldOf id) orders ≤ n.toNat)
    (quantity : UInt64) : (∀ avail ∈ l.available, quantity ≤ avail) ↔
      ∀ n, l₀.available = some n →
        Column.total (Order.soldOf id) orders + quantity.toNat ≤ n.toNat := by
  have havailable := h.available
  cases hl : l.available with
  | none =>
    rw [hl] at havailable
    cases hl₀ : l₀.available with
    | none => exact iff_of_true (fun _ h => by cases h) fun _ h => by cases h
    | some n =>
      rw [hl₀] at havailable
      cases havailable
  | some avail =>
    rw [hl] at havailable
    cases hl₀ : l₀.available with
    | none =>
      rw [hl₀] at havailable
      cases havailable
    | some n =>
      rw [hl₀] at havailable
      have hleft : avail.toNat = n.toNat - Column.total (Order.soldOf id) orders :=
        Option.some.inj havailable
      have hfit := hfits n hl₀
      constructor
      · rintro hcovers n' ⟨⟩
        have hle := UInt64.le_iff_toNat_le.mp (hcovers avail rfl)
        omega
      · rintro hcovers avail' ⟨⟩
        have hle := hcovers n rfl
        exact UInt64.le_iff_toNat_le.mpr (by omega)

/-- An order that is completed as the law wants it was paid and not completed yet. -/
theorem Sold.paid_of_completedWith (h : Accounted t) (hp : t.market.orders.lookup id = some o)
    (hs' : Sold (t.completedWith id o l deliveryHash now saleAt)) : o.status = .paid := by
  have hstage := (h.filed id o hp).stage
  cases hstatus : o.status <;> rw [hstatus] at hstage
  case pending =>
    exact absurd (hs'.afterPaid id (List.mem_append_right _ (List.mem_singleton_self _))) hstage.1
  case completed =>
    exact absurd rfl ((List.nodup_append.mp hs'.once).2.2 id hstage id
      (List.mem_singleton_self _))
  all_goals exact hstage.elim

theorem completed_law_iff (hs : Sold t) (h : Accounted t) (hp : t.market.orders.lookup id = some o)
    (hl : t.market.listings.lookup o.listingId = some l) :
    Sold (t.completedWith id o l deliveryHash now saleAt) ↔ o.status = .paid ∧
      t.market.totalVolume.toNat + o.subtotal.toNat < 2 ^ 64 ∧
        ∀ avail ∈ l.available, o.quantity ≤ avail := by
  obtain ⟨l₀, hl₀, hstocked⟩ := h.lookup_listed hl
  have hfits := fun n hn => hs.stock o.listingId l₀ n hl₀ hn
  rw [hstocked.covers_iff hfits]
  constructor
  · intro hs'
    have hpaid := Sold.paid_of_completedWith deliveryHash now saleAt h hp hs'
    have hstatus : o.status ≠ .completed := by
      rw [hpaid]
      exact OrderStatus.noConfusion
    refine ⟨hpaid, ?_, fun n hn => ?_⟩
    · have hvolume : (t.market.totalVolume + o.subtotal).toNat
          = Column.total Order.volume t.market.orders + o.subtotal.toNat :=
        hs'.volume.trans (total_completed deliveryHash now _ hp hstatus)
      rw [hs.volume, ← hvolume]
      exact UInt64.toNat_lt _
    · have hsold := soldOf_completed deliveryHash now o.listingId hp hstatus
      rw [if_pos rfl] at hsold
      exact hsold ▸ hs'.stock o.listingId l₀ n hl₀ hn
  · rintro ⟨hpaid, hvolume, hcovers⟩
    have hstatus : o.status ≠ .completed := by
      rw [hpaid]
      exact OrderStatus.noConfusion
    have hf := h.filed id o hp
    have hstage := hf.stage
    rw [hpaid] at hstage
    refine ⟨hs.distinct, hs.recorded_insert hp rfl, hs.exact, ?_, fun id' hid' => ?_, ?_, ?_,
      fun listingId l' n hl' hn => ?_⟩
    · refine List.nodup_append.mpr ⟨hs.once, List.nodup_singleton _, fun id' hid' id'' hid'' => ?_⟩
      rintro rfl
      exact hstage.2 (List.mem_singleton.mp hid'' ▸ hid')
    · rcases List.mem_append.mp hid' with hold | hnew
      · exact hs.afterPaid id' hold
      · exact List.mem_singleton.mp hnew ▸ hstage.1
    · show (t.market.totalVolume + o.subtotal).toNat = _
      rw [toNat_add_of_lt hvolume, hs.volume]
      exact (total_completed deliveryHash now _ hp hstatus).symm
    · -- the fees are no more than the volume, so they fit as well
      have hfees : Column.total Order.fees t.market.orders
          ≤ Column.total Order.volume t.market.orders :=
        Column.total_le_total fun k o' ho' => Order.fees_le_volume
          (h.filed k o' (Finmap.lookup_eq_some_iff.mpr ho')).fee
      have hlt : t.market.totalFees.toNat + o.platformFee.toNat < 2 ^ 64 := by
        rw [hs.fees]
        rw [hs.volume] at hvolume
        have hfee := hf.fee
        omega
      show (t.market.totalFees + o.platformFee).toNat = _
      rw [toNat_add_of_lt hlt, hs.fees]
      exact (total_completed deliveryHash now _ hp hstatus).symm
    · refine (soldOf_completed deliveryHash now listingId hp hstatus).le.trans ?_
      by_cases hid : o.listingId = listingId
      · subst hid
        cases hl₀.symm.trans hl'
        rw [if_pos rfl]
        exact hcovers n hn
      · rw [if_neg hid]
        exact hs.stock listingId l' n hl' hn

theorem completed_kept (h : Accounted t) (hp : t.market.orders.lookup id = some o)
    (hl : t.market.listings.lookup o.listingId = some l) (hpaid : o.status = .paid) :
    Accounted (t.completedWith id o l deliveryHash now saleAt) := by
  have hstatus : o.status ≠ .completed := by
    rw [hpaid]
    exact OrderStatus.noConfusion
  refine ⟨fun id' => ?_, fun id' l' l₀ hl' hl₀ => ?_, fun id' p hp' => ?_, fun id' hid' =>
    Finmap.mem_insert.mpr (Or.inr (h.paid id' hid'))⟩
  · rw [MarketRun.completedWith, Finmap.mem_insert, h.keys]
    exact ⟨Or.inr, fun hmem =>
      hmem.elim (fun heq => heq ▸ Finmap.mem_of_lookup_eq_some hl) fun hmem => hmem⟩
  · have hsold := soldOf_completed deliveryHash now id' hp hstatus
    by_cases hid : id' = o.listingId
    · subst hid
      cases (Finmap.lookup_insert _).symm.trans hl'
      obtain ⟨hkey, hprice, havailable⟩ := h.stocked _ l l₀ hl hl₀
      refine ⟨hkey, hprice, ?_⟩
      show (l.available.map fun avail => saturatingSub avail o.quantity).map UInt64.toNat
        = l₀.available.map fun n => n.toNat - Column.total (Order.soldOf o.listingId)
          (t.market.orders.insert id (o.complete deliveryHash now))
      rw [hsold, if_pos rfl, Option.map_map]
      -- what is left after the sale, on both sides
      have hleft : l.available.map (UInt64.toNat ∘ fun avail => saturatingSub avail o.quantity)
          = (l.available.map UInt64.toNat).map fun a => a - o.quantity.toNat := by
        rw [Option.map_map]
        exact Option.map_congr fun avail _ => toNat_saturatingSub avail o.quantity
      rw [hleft, havailable, Option.map_map]
      exact Option.map_congr fun n _ => Nat.sub_sub ..
    · obtain ⟨hkey, hprice, havailable⟩ :=
        h.stocked id' l' l₀ ((Finmap.lookup_insert_of_ne _ hid).symm.trans hl') hl₀
      refine ⟨hkey, hprice, ?_⟩
      show _ = l₀.available.map fun n => n.toNat - Column.total (Order.soldOf id')
        (t.market.orders.insert id (o.complete deliveryHash now))
      rw [hsold, if_neg fun heq => hid heq.symm, Nat.add_zero]
      exact havailable
  · have hlisting : ∀ {listingId : H256}, listingId ∈ t.market.listings →
        listingId ∈ (t.completedWith id o l deliveryHash now saleAt).market.listings :=
      fun hmem => Finmap.mem_insert.mpr (Or.inr hmem)
    by_cases hid : id' = id
    · subst hid
      cases (Finmap.lookup_insert _).symm.trans hp'
      have hf := h.filed id' o hp
      exact ⟨hf.key, hf.placed, hlisting hf.listing, hf.fee,
        List.mem_append_right _ (List.mem_singleton_self _)⟩
    · have hf := h.filed id' p ((Finmap.lookup_insert_of_ne _ hid).symm.trans hp')
      refine ⟨hf.key, hf.placed, hlisting hf.listing, hf.fee, ?_⟩
      have hstays : id' ∉ t.completed → id' ∉ t.completed ++ [id] := fun hnot hmem =>
        (List.mem_append.mp hmem).elim hnot fun hmem => hid (List.mem_singleton.mp hmem)
      have hstage := hf.stage
      cases hps : p.status <;> rw [hps] at hstage
      case pending => exact ⟨hstage.1, hstays hstage.2⟩
      case paid => exact ⟨hstage.1, hstays hstage.2⟩
      case completed => exact List.mem_append_left _ hstage
      all_goals exact hstage

end Completion

/-! ## Runs -/

theorem MarketOutcome.law_iff {op : MarketOp} (ho : MarketOutcome blake3 t op t') (hs : Sold t)
    (h : Accounted t) : Sold t' ↔ op.Careful blake3 t.market := by
  cases ho with
  | nothing hcareful => exact iff_of_true hs hcareful
  | listed hnew => exact iff_of_true (listed_law hs h hnew) trivial
  | @placed listingId buyer quantity idAt now l hl hsells =>
    obtain ⟨l₀, hl₀, hstocked⟩ := h.lookup_listed hl
    constructor
    · intro hs' l' hl' _
      cases hl.symm.trans hl'
      have hmem : Order.new blake3 l buyer quantity idAt now ∈
          t.placed ++ [Order.new blake3 l buyer quantity idAt now] :=
        List.mem_append_right _ (List.mem_singleton_self _)
      constructor
      · intro hid
        rw [← hstocked.key, h.mem_orders_iff hs] at hid
        have hdistinct : (t.placed.map Order.id
            ++ [(Order.new blake3 l buyer quantity idAt now).id]).Nodup := by
          have hnodup := hs'.distinct
          rw [MarketRun.placedWith, List.map_append] at hnodup
          exact hnodup
        exact (List.nodup_append.mp hdistinct).2.2 _ hid _ (List.mem_singleton_self _) rfl
      · obtain ⟨l', hl', hexact⟩ := hs'.exact _ hmem
        have heq : some l₀ = some l' := by
          rw [← hl', ← hl₀, ← hstocked.key]
          rfl
        cases heq
        exact (Order.exactPrice_new_iff hstocked.price buyer quantity idAt now).mp hexact
    · intro hcareful
      obtain ⟨hid, hlt⟩ := hcareful l hl hsells
      rw [← hstocked.key] at hid
      refine placed_law hs h hid OrderStatus.noConfusion rfl ⟨l₀, ?_, ?_⟩
      · show t.listed.lookup l.id = some l₀
        rw [hstocked.key, hl₀]
      · exact (Order.exactPrice_new_iff hstocked.price buyer quantity idAt now).mpr hlt
  | paid hp hstatus => exact iff_of_true (paid_law hs hp hstatus _) trivial
  | @completed id deliveryHash now saleAt o l hp hl =>
    rw [completed_law_iff deliveryHash now saleAt hs h hp hl]
    constructor
    · rintro ⟨hpaid, hvolume, hcovers⟩ o' ho'
      cases hp.symm.trans ho'
      refine ⟨hpaid, hvolume, fun l' hl' => ?_⟩
      cases hl.symm.trans hl'
      exact hcovers
    · intro hcareful
      obtain ⟨hpaid, hvolume, hcovers⟩ := hcareful o hp
      exact ⟨hpaid, hvolume, hcovers l hl⟩
  | unlisted hp hl => exact absurd hl (h.lookup_order_listing hp)

theorem MarketOutcome.kept {op : MarketOp} (ho : MarketOutcome blake3 t op t') (hs : Sold t)
    (h : Accounted t) (hcareful : op.Careful blake3 t.market) : Accounted t' := by
  cases ho with
  | nothing _ => exact h
  | listed hnew => exact listed_kept h hnew
  | @placed listingId buyer quantity idAt now l hl hsells =>
    obtain ⟨l₀, -, hstocked⟩ := h.lookup_listed hl
    have hid := (hcareful l hl hsells).1
    rw [← hstocked.key] at hid hl
    exact placed_kept hs h hid rfl rfl (Finmap.mem_of_lookup_eq_some hl)
      (Order.platformFee_new_le l buyer quantity idAt now)
  | paid hp hstatus => exact paid_kept h hp hstatus _
  | completed hp hl => exact completed_kept _ _ _ h hp hl (hcareful _ hp).1
  | unlisted hp hl => exact absurd hl (h.lookup_order_listing hp)

/-- **The marketplace.** In every run each order keeps its own record at its exact price, is
completed once and after its payment, the sums are those of the completed orders, and no
listing is oversold, exactly when every call meets its condition. -/
theorem sold_iff {ops : List MarketOp} :
    (∀ pre, pre <+: ops → Sold (MarketRun.run blake3 pre)) ↔
      ∀ pre op, pre ++ [op] <+: ops → op.Careful blake3 (MarketRun.run blake3 pre).market := by
  have hstart : Sold .start ∧ Accounted .start := by
    refine ⟨⟨List.nodup_nil, fun o ho => absurd ho List.not_mem_nil,
      fun o ho => absurd ho List.not_mem_nil, List.nodup_nil,
      fun id hid => absurd hid List.not_mem_nil, rfl, rfl, fun id l n hl => ?_⟩,
      fun id => iff_of_false ?_ ?_, fun id l l₀ hl => ?_, fun id o hp => ?_,
      fun id hid => absurd hid List.not_mem_nil⟩
    · cases hl
    · exact Finmap.notMem_empty
    · exact Finmap.notMem_empty
    · cases hl
    · cases hp
  have hstep : ∀ pre op, pre ++ [op] <+: ops →
      Sold (MarketRun.run blake3 pre) ∧ Accounted (MarketRun.run blake3 pre) →
      (Sold (MarketRun.run blake3 (pre ++ [op])) ↔
        op.Careful blake3 (MarketRun.run blake3 pre).market) ∧
      (op.Careful blake3 (MarketRun.run blake3 pre).market →
        Accounted (MarketRun.run blake3 (pre ++ [op]))) := by
    rintro pre op - ⟨hs, h⟩
    have ho := market_outcome blake3 (MarketRun.run blake3 pre) op
    rw [← MarketRun.run_snoc] at ho
    exact ⟨ho.law_iff hs h, ho.kept hs h⟩
  rw [← forall_prefixes_iff (P := fun pre => Sold (MarketRun.run blake3 pre) ∧
    Accounted (MarketRun.run blake3 pre)) hstart fun pre op hpre h => ?_]
  · constructor
    · intro hall
      exact forall_prefixes hstart fun pre op hpre h => ⟨hall _ hpre,
        (hstep pre op hpre h).2 ((hstep pre op hpre h).1.mp (hall _ hpre))⟩
    · intro hall pre hpre
      exact (hall pre hpre).1
  · obtain ⟨hlaw, hkept⟩ := hstep pre op hpre h
    exact ⟨fun h' => hlaw.mp h'.1, fun hcareful => ⟨hlaw.mpr hcareful, hkept hcareful⟩⟩

/-- BLAKE3 of an order's id in second 1, and in second 2. -/
def orderDigest (bytes : List UInt8) : H256 :=
  if bytes.drop 52 = Wire.encU64 1 then
  ⟨#v[0xbc, 0x15, 0xbd, 0x4f, 0x32, 0xcd, 0x85, 0x16,
    0xb9, 0x9c, 0x5f, 0x35, 0x9e, 0x1a, 0x31, 0x05,
    0x37, 0x23, 0x8a, 0xf4, 0x8a, 0xf9, 0xb2, 0x8b,
    0x7d, 0x8c, 0xca, 0x88, 0x65, 0x9d, 0x19, 0x45]⟩
  else
  ⟨#v[0x58, 0xa6, 0xce, 0x7e, 0xcf, 0x76, 0xa1, 0xf2,
    0xbe, 0xe7, 0x0c, 0x9f, 0x5a, 0x49, 0x04, 0xc7,
    0x4a, 0x57, 0x1c, 0xe8, 0x0d, 0xda, 0x43, 0x87,
    0x4b, 0x82, 0x3f, 0x76, 0xf4, 0x47, 0xd4, 0xa8]⟩

/-- Five pieces at 100 each. -/
def sampleListing : Listing :=
  ⟨.zero, ⟨Vector.replicate 20 1⟩, 100, 1, 0, some 5, .active, 0, 0, 0⟩

def sampleOrder (quantity second : UInt64) : MarketOp :=
  .createOrder .zero ⟨Vector.replicate 20 2⟩ quantity second second

/-- The id of the sample order of a second. -/
def sampleOrderId (second : UInt64) : H256 :=
  Order.newId orderDigest .zero ⟨Vector.replicate 20 2⟩ second

/-- Two open orders of four pieces each, paid and completed; an order that is completed twice;
and one that is placed over another in the same second. -/
theorem oversold_and_booked_twice :
    ¬ Sold (MarketRun.run orderDigest [.createListing sampleListing, sampleOrder 4 1,
        sampleOrder 4 2, .payOrder (sampleOrderId 1) 3, .payOrder (sampleOrderId 2) 3,
        .completeOrder (sampleOrderId 1) none 4 4, .completeOrder (sampleOrderId 2) none 4 4]) ∧
      ¬ Sold (MarketRun.run orderDigest [.createListing sampleListing, sampleOrder 1 1,
        .payOrder (sampleOrderId 1) 3, .completeOrder (sampleOrderId 1) none 4 4,
        .completeOrder (sampleOrderId 1) none 5 5]) ∧
      ¬ Sold (MarketRun.run orderDigest [.createListing sampleListing, sampleOrder 4 1,
        sampleOrder 1 1]) := by
  refine ⟨fun h => ?_, fun h => ?_, fun h => ?_⟩
  · have hlisted : (MarketRun.run orderDigest [.createListing sampleListing, sampleOrder 4 1,
        sampleOrder 4 2, .payOrder (sampleOrderId 1) 3, .payOrder (sampleOrderId 2) 3,
        .completeOrder (sampleOrderId 1) none 4 4,
        .completeOrder (sampleOrderId 2) none 4 4]).listed.lookup .zero = some sampleListing := rfl
    exact absurd (h.stock .zero sampleListing 5 hlisted rfl) (by decide)
  · exact absurd h.once (by decide)
  · exact absurd h.distinct (by decide)

end Pyrax.Ai
