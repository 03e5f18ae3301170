import SyntheticRows.Spec.Table

/-!
# The demo tables

Customers, and orders that refer to them by number.
-/
namespace SyntheticRows

/-!
## Name pools

The demo tables take their names from pools. A pool is gone through in order and started over at
its end, so any number of names can be drawn from it.
-/

structure NamePools where
  firstNames : List String
  lastNames : List String
  cities : List String

namespace NamePools

/-- `count` names from a position on; an empty pool has none to give. -/
def draw (pool : List String) (start count : Nat) : List String :=
  (List.range count).filterMap fun i => pool[(start + i) % pool.length]?

/-- The names without later repeats. -/
def distinct (names : List String) : List String :=
  names.foldl (fun seen n => if n ∈ seen then seen else seen ++ [n]) []

/-- How many names are drawn for a column. -/
def size : Nat := 500

/-- The different names among the first `size` from a position on. -/
def column (pool : List String) (start : Nat) : List String := distinct (draw pool start size)

end NamePools

namespace Demo

/-! ## Tables -/

def textColumn (name : String) (h : (Value.text name).isPresent = true) (generator : Generator) :
    Column :=
  { name := .text name, type := .string, generator, named := h }

def lookupOf (names : List String) : Generator := .choiceByLookup (names.map .text)

/-- One in twenty. -/
def oneInTwenty : Probability := ⟨.float (.ofDecimal false 5 (-2)), by decide +kernel⟩

def signupSpan : Span :=
  { start := .ofDate ⟨2020, 1, 1, by decide⟩
    stop := some (.ofDate ⟨2024, 12, 31, by decide⟩)
    ordered := by intro e h; cases h; decide +kernel }

def orderSpan : Span :=
  { start := .ofDate ⟨2021, 1, 1, by decide⟩
    stop := some (.ofDate ⟨2024, 12, 31, by decide⟩)
    ordered := by intro e h; cases h; decide +kernel }

/-- Between five and five hundred, in cents. -/
def amounts : FloatRange :=
  { low := ⟨.float (.ofNat 5), by decide +kernel⟩
    high := ⟨.float (.ofNat 500), by decide +kernel⟩
    ordered := by decide +kernel }

def statuses : List String := ["pending", "paid", "shipped", "delivered", "cancelled"]

def identifier : Column := { name := .text "id", type := .bigint, generator := .sequence {} }

def userColumnNames : List String :=
  ["id", "first_name", "last_name", "email", "billing_city", "shipping_city", "age", "signup_at"]

/-- The two city columns draw from one pool, the second where the first stopped. -/
def userColumns (pools : NamePools) : List Column :=
  [identifier,
    textColumn "first_name" rfl (lookupOf (NamePools.column pools.firstNames 0)),
    textColumn "last_name" rfl (lookupOf (NamePools.column pools.lastNames 0)),
    textColumn "email" rfl (.randomText 12),
    textColumn "billing_city" rfl (lookupOf (NamePools.column pools.cities 0)),
    textColumn "shipping_city" rfl (lookupOf (NamePools.column pools.cities NamePools.size)),
    { name := .text "age", type := .integer, generator := .intRange { low := 18, high := 90 }
      nullable := true, nullProbability := oneInTwenty },
    { name := .text "signup_at", type := .datetime, generator := .span signupSpan }]

theorem map_name_userColumns (pools : NamePools) :
    (userColumns pools).map Column.name = userColumnNames.map .text := rfl

def usersTable (pools : NamePools) : Table :=
  { name := .text "users"
    columns := userColumns pools
    description := .text "Demo customers"
    nonempty := by simp [userColumns]
    distinct := by rw [map_name_userColumns]; decide +kernel }

def orderColumnNames : List String :=
  ["id", "order_ref", "user_id", "customer_email", "amount", "status", "ordered_at"]

def orderColumns (users : IntRange) : List Column :=
  [identifier,
    textColumn "order_ref" rfl .uuid,
    { name := .text "user_id", type := .bigint, generator := .intRange users },
    { name := .text "customer_email", type := .string, generator := .randomText 8
      nullable := true },
    { name := .text "amount", type := .float, generator := .floatRange amounts },
    textColumn "status" rfl (.choice (statuses.map .text)),
    { name := .text "ordered_at", type := .datetime, generator := .span orderSpan }]

theorem map_name_orderColumns (users : IntRange) :
    (orderColumns users).map Column.name = orderColumnNames.map .text := rfl

/-- Orders of the given range of customers. -/
def ordersTable (users : IntRange) : Table :=
  { name := .text "orders"
    columns := orderColumns users
    description := .text "Demo orders referencing users by id"
    nonempty := by simp [orderColumns]
    distinct := by rw [map_name_orderColumns]; decide +kernel }

end Demo
end SyntheticRows
