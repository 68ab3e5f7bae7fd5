/-
Sessions: requests to one converter, whose formats may change between conversions. A request that
fails changes nothing.
-/
import Redate.Converter

namespace Redate

open Template (ParseError)

/-- What a converter can be asked for. -/
inductive Request
  | configure (input output : String)
  | setInput (format : String)
  | setOutput (format : String)
  | render (d : Date)
  | find (text : List Char)
  | convert (text : List Char)
  | report (text : List Char)
  deriving Repr

/-- What a request is answered with. -/
inductive Answer
  | done
  | failed (e : Error)
  | text (text : List Char)
  | matches (found : List (Match × Except ParseError Date))
  | report (r : Report)

namespace Converter

/-- The matches of a text with their dates. -/
def findDates (c : Converter) (text : List Char) : List (Match × Except ParseError Date) :=
  (c.find text).map fun m => (m, c.parseMatch text m)

/-- The converter that takes the place of `c`, or `c` itself after a failure. -/
def replaceBy (c : Converter) : Except Error Converter → Answer × Converter
  | .ok c' => (.done, c')
  | .error e => (.failed e, c)

/-- The answer to a request, and the converter in force after it. -/
def answer (c : Converter) : Request → Answer × Converter
  | .configure input output => c.replaceBy (compile input output)
  | .setInput format => c.replaceBy (c.withInput format)
  | .setOutput format => (.done, c.withOutput format)
  | .render d => (.text (c.render d), c)
  | .find text => (.matches (c.findDates text), c)
  | .convert text => (.text (c.convert text), c)
  | .report text => (.report (c.report text), c)

/-- The answers to a list of requests, each with the converter in force after it. -/
def session (c : Converter) : List Request → List (Answer × Converter)
  | [] => []
  | r :: rs =>
    let step := c.answer r
    step :: step.2.session rs

end Converter

end Redate
