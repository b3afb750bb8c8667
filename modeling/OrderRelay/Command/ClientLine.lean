import OrderRelay.Command.Words
import OrderRelay.Number.Decimal

/-!
# The command line of the client

In front stand options for every command, then the name of a command, and then what the command
needs: plain words in an order, and options of its own.

* `ClientCommand`: what the client can do.
* `ClientLine.ofWords`: what a command line asks for, or why nothing is done.
-/

namespace OrderRelay

/-- What the client can do. -/
inductive ClientCommand where
  | submit (symbol side : String) (price : Double) (quantity : Int32) (orderType clientId : String)
  | book (symbol : String)
  | cancel (orderId clientId : String)
  | modify (orderId : String) (newPrice : Double) (newQuantity : Int32) (clientId : String)
  | health
  deriving DecidableEq

/-- What the command line of the client asks for. -/
structure ClientLine where
  /-- The address of the service. -/
  url : String
  requestId : Option String
  command : ClientCommand
  deriving DecidableEq

namespace ClientLine

/-- The address of the service if nothing else is said. -/
def defaultUrl : String := "http://localhost:8080"

/-- The options in front of the command. -/
def frontOptions : List OptionName := [⟨"url", some 'u'⟩, ⟨"request-id", none⟩]

/-- The type of an order if nothing else is said. -/
def defaultOrderType : String := "LIMIT"

/-- A quantity on a command line. -/
def quantityOf? (s : String) : Option Int32 :=
  (intOfText? (-2147483648) 2147483647 s).map Int32.ofInt

/-- The words behind the name of a command, which takes so many plain words. -/
def partsOf (options : List String) (count : Nat) (ws : List String) : Except Stop Parts := do
  let (parts, _) ← (readWords (options.map (⟨·, none⟩)) false ws).mapError .usage
  let parts ← Parts.gather parts
  parts.atMost count
  return parts

/-- A new order. -/
def submit (ws : List String) : Except Stop ClientCommand := do
  let parts ← partsOf ["type", "client-id"] 4 ws
  let price ← readValue "price" Double.ofText? parts.words[2]?
  let quantity ← readValue "quantity" quantityOf? parts.words[3]?
  parts.heedHelp
  return .submit (← required "symbol" parts.words[0]?) (← required "side" parts.words[1]?)
    (← required "price" price) (← required "quantity" quantity)
    ((parts.option? "type").getD defaultOrderType)
    (← required "client-id" (parts.option? "client-id"))

/-- An order book. -/
def book (ws : List String) : Except Stop ClientCommand := do
  let parts ← partsOf [] 1 ws
  parts.heedHelp
  return .book (← required "symbol" parts.words[0]?)

/-- The end of an order. -/
def cancel (ws : List String) : Except Stop ClientCommand := do
  let parts ← partsOf ["client-id"] 1 ws
  parts.heedHelp
  return .cancel (← required "order-id" parts.words[0]?)
    (← required "client-id" (parts.option? "client-id"))

/-- A change of an order. -/
def modify (ws : List String) : Except Stop ClientCommand := do
  let parts ← partsOf ["client-id"] 3 ws
  let price ← readValue "new-price" Double.ofText? parts.words[1]?
  let quantity ← readValue "new-quantity" quantityOf? parts.words[2]?
  parts.heedHelp
  return .modify (← required "order-id" parts.words[0]?) (← required "new-price" price)
    (← required "new-quantity" quantity) (← required "client-id" (parts.option? "client-id"))

/-- The health of the service. -/
def health (ws : List String) : Except Stop ClientCommand := do
  let parts ← partsOf [] 0 ws
  parts.heedHelp
  return .health

/-- The commands by their names. -/
def commands : List (String × (List String → Except Stop ClientCommand)) :=
  [("submit", submit), ("book", book), ("cancel", cancel), ("modify", modify), ("health", health)]

/-- The end of a command line that asks for help on a command. -/
def helpOn : List String → Stop
  | [] => .help
  | [w] => if w = "help" || (commands.lookup w).isSome then .help else .usage (.unknownCommand w)
  | _ :: w :: _ => .usage (.unknownCommand w)

/-- The command of a command line without the options in front. -/
def commandOf : List String → Except Stop ClientCommand
  | [] => .error (.usage .commandMissing)
  | name :: ws =>
    if name = "help" then .error (helpOn ws)
    else
      match commands.lookup name with
      | some read => read ws
      | none => .error (.usage (.unknownCommand name))

/-- What a command line asks for. The address may also be given by the environment. -/
def ofWords (environmentUrl : Option String) (ws : List String) : Except Stop ClientLine := do
  let (parts, rest) ← (readWords frontOptions true ws).mapError .usage
  let front ← Parts.gather parts
  front.atMost 0
  front.heedHelp
  let command ← commandOf rest
  return ⟨(front.option? "url").getD (environmentUrl.getD defaultUrl), front.option? "request-id",
    command⟩

end ClientLine

end OrderRelay
