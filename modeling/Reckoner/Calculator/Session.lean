import Reckoner.Calculator.Store

/-!
# Sessions

A calculator serves requests one after the other. A request that fails leaves behind what was done up to the failure:
the values that were stored by then, and a reader of texts if one was needed.
-/

namespace Reckoner.Calculator

/-- What a calculator is asked for. -/
inductive Request where
  | store (call : StoreCall)
  | clear
  | addFunction (f : UserFunction)
  | tokenize (text : String)
  | dependencies (text : String) (data : List (Value × Value))
  | bind (tokens : Stream) (data : List (Value × Value))
  | evaluate (text : String) (data : List (Value × Value))

/-- What a request is answered with. -/
inductive Answer where
  /-- The calculator itself. -/
  | calculator
  | function (f : UserFunction)
  | tokens (ts : Stream)
  | names (names : List Value)
  | value (v : Value)

/-- The calculator after a request, and its answer. Values given with a request need the reader for their keys, and
    texts need it anyway. -/
def perform (c : Calculator) : Request → Calculator × Outcome Answer
  | .store call =>
    let (c, stored) := c.store call
    (c, stored.map fun _ => .calculator)
  | .clear => (c.clear, .ok .calculator)
  | .addFunction f =>
    match c.addFunction f with
    | .ok c => (c, .ok (.function f))
    | .error e => (c, .error e)
  | .tokenize text => (c.ready, (c.tokenize text).map .tokens)
  | .dependencies text data => (c.ready, (c.dependencies text data).map .names)
  | .bind tokens data => (if data.isEmpty then c else c.ready, (c.bind tokens data).map .tokens)
  | .evaluate text data => (c.ready, (c.evaluate text data).outcome.map .value)

/-- The calculator after some requests. -/
def after (c : Calculator) (rs : List Request) : Calculator := rs.foldl (fun c r => (c.perform r).1) c

end Reckoner.Calculator
