import AudioMarkup.Expr.Basic

/-!
Series: the coefficient lists of a periodic wave, written item by item or by a rule over a range. In
a script a list of items is an array; a range is a function, called on the spot, that collects the
values of the body in a local array named after the index.
-/

namespace AudioMarkup

inductive Series where
  | list (items : List Expr)
  | range (index : String) (lower upper body : Expr)
  deriving DecidableEq, Repr, Inhabited

inductive Series.Piece where
  | openItems
  | item (text : String)
  | closeItems
  | openRange (index : String)
  | loop (index lower upper body : String)
  | closeRange (index : String)
  deriving DecidableEq, Repr, Inhabited

namespace Series

def Piece.render (count : Nat) : Piece → String
  | .openItems => "["
  | .item text => if count = 0 then text else "," ++ text
  | .closeItems => "]"
  | .openRange index => "(function()\x7bvar _" ++ index ++ "=[];"
  | .loop index lower upper body =>
    "for(var " ++ index ++ "=" ++ lower ++ ";" ++ index ++ "<" ++ upper ++ ";++" ++ index ++
      ")\x7b_" ++ index ++ ".push(" ++ body ++ ");\x7d"
  | .closeRange index => "return _" ++ index ++ ";\x7d)()"

/-- The number of items written after a piece. An opening bracket starts the count anew. -/
def Piece.count (count : Nat) : Piece → Nat
  | .openItems => 0
  | .item _ => count + 1
  | _ => count

/-- The texts of pieces when so many items have been written before them. Every item but the first
has a comma before it. -/
def Piece.renderFrom (count : Nat) : List Piece → List String
  | [] => []
  | piece :: rest => piece.render count :: renderFrom (piece.count count) rest

def Piece.renderAll (pieces : List Piece) : String := String.join (Piece.renderFrom 0 pieces)

def pieces : Series → List Piece
  | .list items => .openItems :: items.map (fun item => .item item.scriptText) ++ [.closeItems]
  | .range index lower upper body =>
    [.openRange index, .loop index lower.scriptText upper.scriptText body.scriptText,
     .closeRange index]

def scriptText (series : Series) : String := Piece.renderAll series.pieces

end Series

end AudioMarkup
