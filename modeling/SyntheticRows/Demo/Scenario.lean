import SyntheticRows.Demo.Tables
import SyntheticRows.Spec.Scenario

/-!
# The demo scenario

Customers get an e-mail address made of their names and then some noise; orders get the address
of their customer.
-/
namespace SyntheticRows.Demo

/-- One in fifty. -/
def oneInFifty : Probability := ⟨.float (.ofDecimal false 2 (-2)), by decide +kernel⟩

def oneInTen : Probability := ⟨.float (.ofDecimal false 1 (-1)), by decide +kernel⟩

def emails : Batch :=
  { transformations := [.template {
      column := .text "email"
      template := .text "\x7bfirst_name\x7d.\x7blast_name\x7d@example.com"
      lowercase := true }]
    description := .text "derive emails" }

def noise : Batch :=
  { transformations := [
      .mutation (.withAllEdits (.text "last_name") oneInFifty),
      .swap {
        column1 := .text "billing_city"
        column2 := .text "shipping_city"
        probability := oneInTen }]
    description := .text "introduce noise" }

def customerEmails : Batch :=
  { transformations := [.lookup {
      column := .text "customer_email"
      fromTable := .text "users"
      fromColumn := .text "email"
      targetColumn := .text "user_id"
      lookupColumn := .text "id" }]
    description := .text "denormalize customer emails" }

/-- The last customer that an order can have: the number of customers, and at least 1. -/
def lastCustomer (users : Value) : Except Error Value := do
  let n ← orError .wrongKind users.asNumber?
  return if n.lt (.int 1) then .int 1 else users

/-- The customers that orders refer to. -/
def customers (users : Value) : Except Error IntRange := do
  let last ← Spec.checkWhole "randomInt" "max" (← lastCustomer users)
  if h : 1 ≤ last then return ⟨1, last, h⟩
  else refuse (.minAboveMax "randomInt" (.int 1) (.int last))

/-- The demo for numbers of customers and orders. -/
def scenario (pools : NamePools) (users orders : Value) : Except Error Scenario := do
  let range ← customers users
  let generateUsers ← GenerateStep.make (usersTable pools) users [emails, noise]
  let generateOrders ← GenerateStep.make (ordersTable range) orders []
  return {
    name := .text "demo"
    steps := [.generate generateUsers, .generate generateOrders,
      .transform ⟨.text "orders", [customerEmails]⟩]
    description := .text "Faker-seeded users and orders" }

end SyntheticRows.Demo
