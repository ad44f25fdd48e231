import Pyrax.Base.Records
import Pyrax.Base.Word
import Pyrax.Types.Primitives

/-!
# The AI marketplace

The sales of `pyrax-node/src/ai/compute/marketplace.rs`: listings, orders and two running
sums. `create_order` looks at the stock and reserves none of it; `complete_order` takes it,
from an order in whatever status. The id of an order is a hash of the listing, the buyer and
the second.

Readings of the clock are arguments. The indices by seller, by type and by buyer, the bids,
and what else a listing or an order carries are left out; none of these calls reads them.
-/

namespace Pyrax.Ai

open Base Wire Word

def platformFeePercent : Nat := 2

inductive ListingStatus where
  | draft
  | active
  | paused
  | soldOut
  | expired
  | removed
  deriving DecidableEq

structure Listing where
  id : H256
  seller : Address
  price : UInt64
  minQuantity : UInt64
  maxQuantity : UInt64
  available : Option UInt64
  status : ListingStatus
  updatedAt : UInt64
  salesCount : UInt64
  totalRevenue : UInt64
  deriving DecidableEq

inductive OrderStatus where
  | pending
  | paid
  | processing
  | completed
  | cancelled
  | refunded
  | disputed
  deriving DecidableEq

structure Order where
  id : H256
  listingId : H256
  buyer : Address
  seller : Address
  quantity : UInt64
  subtotal : UInt64
  platformFee : UInt64
  total : UInt64
  status : OrderStatus
  createdAt : UInt64
  paidAt : Option UInt64
  completedAt : Option UInt64
  deliveryHash : Option H256
  deriving DecidableEq

inductive MarketplaceError where
  | listingNotFound (id : H256)
  | listingExists (id : H256)
  | listingNotActive
  | orderNotFound (id : H256)
  | invalidOrderStatus
  | quantityTooLow
  | quantityTooHigh
  | insufficientStock
  deriving DecidableEq

namespace Listing

def calculatePrice (l : Listing) (quantity : UInt64) : UInt64 := l.price * quantity

def recordSale (l : Listing) (quantity revenue now : UInt64) : Listing :=
  { l with
    salesCount := l.salesCount + quantity
    totalRevenue := l.totalRevenue + revenue
    updatedAt := now
    available := l.available.map fun avail => saturatingSub avail quantity
    status :=
      if l.available.map (fun avail => saturatingSub avail quantity) = some 0 then .soldOut
      else l.status }

end Listing

namespace Order

-- the digest of `blake3::Hasher`
variable (blake3 : List UInt8 → H256)

/-- The id `Order::new` gives, in the second `now`. -/
def newId (listingId : H256) (buyer : Address) (now : UInt64) : H256 :=
  blake3 (listingId.asBytes ++ buyer.asBytes ++ encU64 now)

/-- `Order::new`; the clock is read for the id and then for `created_at`. -/
def new (listing : Listing) (buyer : Address) (quantity idAt now : UInt64) : Order :=
  let subtotal := listing.calculatePrice quantity
  let platformFee := mulDiv subtotal.toNat platformFeePercent 100
  { id := newId blake3 listing.id buyer idAt
    listingId := listing.id
    buyer := buyer
    seller := listing.seller
    quantity := quantity
    subtotal := subtotal
    platformFee := platformFee
    total := subtotal + platformFee
    status := .pending
    createdAt := now
    paidAt := none
    completedAt := none
    deliveryHash := none }

def markPaid (o : Order) (now : UInt64) : Order := { o with status := .paid, paidAt := some now }

/-- Whatever the status. -/
def complete (o : Order) (deliveryHash : Option H256) (now : UInt64) : Order :=
  { o with status := .completed, completedAt := some now, deliveryHash := deliveryHash }

end Order

structure AIMarketplace where
  listings : Column H256 Listing
  orders : Column H256 Order
  totalVolume : UInt64
  totalFees : UInt64

namespace AIMarketplace

variable (blake3 : List UInt8 → H256)

def new : AIMarketplace := ⟨∅, ∅, 0, 0⟩

def createListing (m : AIMarketplace) (listing : Listing) :
    Except MarketplaceError (H256 × AIMarketplace) :=
  if listing.id ∈ m.listings then .error (.listingExists listing.id)
  else .ok (listing.id, { m with listings := m.listings.insert listing.id listing })

def updateListing (m : AIMarketplace) (id : H256) (f : Listing → Listing) :
    Except MarketplaceError AIMarketplace :=
  match m.listings.lookup id with
  | none => .error (.listingNotFound id)
  | some listing => .ok { m with listings := m.listings.insert id (f listing) }

def createOrder (m : AIMarketplace) (listingId : H256) (buyer : Address)
    (quantity idAt now : UInt64) : Except MarketplaceError (Order × AIMarketplace) :=
  match m.listings.lookup listingId with
  | none => .error (.listingNotFound listingId)
  | some listing =>
    if listing.status ≠ .active then .error .listingNotActive
    else if quantity < listing.minQuantity then .error .quantityTooLow
    else if 0 < listing.maxQuantity ∧ listing.maxQuantity < quantity then .error .quantityTooHigh
    else if ∃ avail ∈ listing.available, avail < quantity then .error .insufficientStock
    else
      let order := Order.new blake3 listing buyer quantity idAt now
      .ok (order, { m with orders := m.orders.insert order.id order })

def payOrder (m : AIMarketplace) (orderId : H256) (now : UInt64) :
    Except MarketplaceError AIMarketplace :=
  match m.orders.lookup orderId with
  | none => .error (.orderNotFound orderId)
  | some order =>
    if order.status ≠ .pending then .error .invalidOrderStatus
    else .ok { m with orders := m.orders.insert orderId (order.markPaid now) }

/-- The order is completed before its listing is looked up. -/
def completeOrder (m : AIMarketplace) (orderId : H256) (deliveryHash : Option H256)
    (now saleAt : UInt64) : Except MarketplaceError Unit × AIMarketplace :=
  match m.orders.lookup orderId with
  | none => (.error (.orderNotFound orderId), m)
  | some order =>
    let m' := { m with orders := m.orders.insert orderId (order.complete deliveryHash now) }
    match m'.updateListing order.listingId fun l =>
        l.recordSale order.quantity order.subtotal saleAt with
    | .error e => (.error e, m')
    | .ok m'' =>
      (.ok (), { m'' with
        totalVolume := m''.totalVolume + order.subtotal
        totalFees := m''.totalFees + order.platformFee })

end AIMarketplace

end Pyrax.Ai
