import MeetingLedger.Markup.Token

/-!
# The allowed part of a formatted text

Allowed tags with allowed attributes are copied as they stand, allowed tags with other attributes
are rebuilt from the allowed ones, an opening bracket that starts no tag is escaped, and everything
else is dropped.
-/

namespace MeetingLedger.Markup

/-- Whether a tag may carry an attribute. -/
def Policy.accepts (policy : Policy) (tag : String) (a : Attribute) : Bool :=
  policy.allowsAttribute tag a.name && a.isSafe

namespace Token

/-- An opening tag with only the attributes that it may carry. -/
def rebuilt (policy : Policy) (body : List Char) : List Char :=
  let tag := tagName body
  let kept := (attributes (body.drop tag.length)).filter (policy.accepts tag)
  let slash := if (trimEnd body).getLast? == some '/' then [' ', '/'] else []
  '<' :: body.take tag.length ++ kept.flatMap (fun a => ' ' :: a.raw) ++ slash ++ ['>']

def emit (policy : Policy) : Token → List Char
  | plain c => [c]
  | bracket => "&lt;".toList
  | closing body => if policy.allowsTag (tagName body) then '<' :: '/' :: body ++ ['>'] else []
  | opening body =>
    let tag := tagName body
    if !policy.allowsTag tag then []
    else if (attributes (body.drop tag.length)).all (policy.accepts tag) then
      '<' :: body ++ ['>']
    else rebuilt policy body
  | dropped => []

end Token

/-- The allowed part of a text. -/
def sanitize (policy : Policy) (text : String) : Except MarkupError String :=
  (tokens text.toList).map fun ts => String.ofList (ts.flatMap (Token.emit policy))

/-- Whether a text is allowed as it stands. -/
def isSanitized (policy : Policy) (text : String) : Bool :=
  match sanitize policy text with
  | .ok out => out == text
  | .error _ => false

end MeetingLedger.Markup
