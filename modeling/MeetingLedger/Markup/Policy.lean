/-! # The tags and attributes that a formatted text may contain -/

namespace MeetingLedger.Markup

/-- Text formatting alone, or embedded media and frames as well. -/
inductive Policy where
  | strict
  | permissive
deriving DecidableEq

def formattingTags : List String := [
  "a", "b", "blockquote", "br", "caption", "code", "col", "colgroup", "del", "div", "em", "h1",
  "h2", "h3", "h4", "h5", "h6", "hr", "i", "img", "ins", "li", "ol", "p", "pre", "s", "span",
  "strike", "strong", "sub", "sup", "table", "tbody", "td", "tfoot", "th", "thead", "tr"]

def mediaTags : List String :=
  ["audio", "figcaption", "figure", "iframe", "source", "u", "video"]

def globalAttributes : List String :=
  ["class", "style", "title", "lang", "dir", "align", "data-line-number"]

def formattingAttributes : String → List String
  | "a" => ["href", "target", "rel", "name"]
  | "img" => ["src", "alt", "width", "height"]
  | "td" | "th" => ["colspan", "rowspan"]
  | "ol" => ["start", "type"]
  | "col" | "colgroup" => ["span"]
  | _ => []

def mediaAttributes : String → List String
  | "iframe" => ["src", "width", "height", "allowfullscreen", "frameborder"]
  | "video" | "audio" => ["src", "controls", "width", "height", "poster"]
  | "source" => ["src", "type"]
  | _ => []

/-- Elements whose content is dropped together with their tags. -/
def scriptTags : List String := ["script", "style"]

namespace Policy

def name : Policy → String
  | strict => "HTMLStrict"
  | permissive => "HTMLPermissive"

def allowsTag (policy : Policy) (tag : String) : Bool :=
  formattingTags.contains tag || (policy == permissive && mediaTags.contains tag)

def allowsAttribute (policy : Policy) (tag name : String) : Bool :=
  globalAttributes.contains name || (formattingAttributes tag).contains name ||
    (policy == permissive && (mediaAttributes tag).contains name)

end Policy

end MeetingLedger.Markup
