/-
This file models how the tags of an origin's page get onto the challenge page: the two regular
expressions that find tags and their attributes in the head, the lists of what is mirrored, and
the template that renders the tags again.

A text is a list of characters here. The regular expressions are modelled by what they match at
the beginning of a text: a search goes on after each match. Of the word characters, which are
those of Unicode, only the ASCII ones are known.
-/

import Bagel.Library.Markup
import Bagel.Library.Matches
import Bagel.Library.Sorted
import Bagel.Rules

namespace Bagel

/-- `\w` of the regular expressions. -/
structure WordClass where
  isWord : Char → Bool
  ascii : ∀ char : Char, char.toNat < 128 → isWord char = (char.isAlphanum || char == '_')

namespace TagFetcher

/-- `str::to_lowercase` -/
def lowercase (text : List Char) : List Char := (toLowercase (String.ofList text)).toList

/-! ### Tags -/

inductive TagKind where
  | metaTag
  | linkTag
  deriving DecidableEq

def TagKind.name : TagKind → List Char
  | .metaTag => "meta".toList
  | .linkTag => "link".toList

/-- An extracted tag with its attributes. -/
structure HtmlTag where
  tag : TagKind
  attrs : List (List Char × List Char)
  deriving DecidableEq

/-- The name of a tag in any letter case, with the Kelvin sign for a k. -/
def kindAt (text : List Char) : Option TagKind :=
  let name := lowercase (text.take 4)
  if name = TagKind.metaTag.name then some .metaTag
  else if name = TagKind.linkTag.name then some .linkTag
  else none

/-- What `TAG_RE` matches at the beginning of a text: the name of a tag, whitespace, and all up to
the first closing bracket. -/
def tagAt : List Char → Option ((TagKind × List Char) × Nat)
  | [] => none
  | first :: text =>
    if first = '<' then
      match kindAt text, text.drop 4 with
      | some kind, space :: rest =>
        let attrStr := rest.takeWhile (· != '>')
        if isWhitespace space ∧ attrStr.length < rest.length then
          some ((kind, attrStr), attrStr.length + 7)
        else none
      | _, _ => none
    else none

/-! ### Attributes -/

/-- A value between quotation marks, with the length of what is matched. -/
def quotedAt (mark : Char) : List Char → Option (List Char × Nat)
  | [] => none
  | first :: text =>
    let value := text.takeWhile (· != mark)
    if first = mark ∧ value.length < text.length then some (value, value.length + 2) else none

/-- A value without quotation marks. -/
def bareAt (text : List Char) : Option (List Char × Nat) :=
  let value := text.takeWhile (!isWhitespace ·)
  if value = [] then none else some (value, value.length)

/-- The alternatives for a value, in their order. -/
def valueAt (text : List Char) : Option (List Char × Nat) :=
  quotedAt '"' text <|> quotedAt '\'' text <|> bareAt text

variable (words : WordClass)

/-- `[\w-]` -/
def isKeyChar (char : Char) : Bool := words.isWord char || char == '-'

/-- What `ATTR_RE` matches at the beginning of a text: a key, an equals sign and a value. -/
def attributeAt : List Char → Option ((List Char × List Char) × Nat)
  | [] => none
  | first :: text =>
    if words.isWord first then
      match text.dropWhile (isKeyChar words) with
      | [] => none
      | equals :: rest =>
        if equals = '=' then
          let key := first :: text.takeWhile (isKeyChar words)
          (valueAt rest).map fun found => ((lowercase key, found.1), key.length + 1 + found.2)
        else none
    else none

/-- The attributes in the text of a tag. -/
def readAttributes (attrStr : List Char) : List (List Char × List Char) :=
  Matches.find (attributeAt words) attrStr

/-! ### What is mirrored -/

def safeMetaPrefixes : List (List Char) :=
  ["og:", "fb:", "twitter:", "profile:", "vcs:", "forge:", "citation_"].map String.toList

def safeMetaNames : List (List Char) :=
  ["theme-color", "color-scheme", "origin-trials", "application-name", "origin", "author",
    "creator", "contact", "title", "description", "thumbnail", "rating", "license",
    "license:uri", "rights", "rights-standard", "go-import", "go-source", "apple-itunes-app",
    "appstore:bundle_id", "appstore:developer_url", "appstore:store_id", "google-play-app",
    "verify-v1", "google-site-verification", "p:domain_verify", "yandex-verification",
    "alexaverifyid", "keywords", "robots", "google", "googlebot", "bingbot", "pinterest",
    "Slurp"].map String.toList

def safeLinkRels : List (List Char) :=
  ["icon", "shortcut icon", "apple-touch-icon", "apple-touch-icon-precomposed", "alternate",
    "canonical", "manifest", "author", "me", "license", "copyright", "privacy-policy",
    "terms-of-service", "search", "dns-prefetch", "preconnect"].map String.toList

def safeAttributes : List (List Char) :=
  ["name", "property", "content", "charset", "http-equiv", "rel", "href", "type", "hreflang",
    "media", "sizes", "crossorigin"].map String.toList

def isSafeMetaName (name : List Char) : Bool :=
  if name.isEmpty then false
  else safeMetaPrefixes.any (fun start => start.isPrefixOf name) || safeMetaNames.contains name

def isMetaNameKey (key : List Char) : Bool := key == "name".toList || key == "property".toList

def isRelKey (key : List Char) : Bool := key == "rel".toList

/-- The value of the first attribute whose key is one of those asked for. -/
def firstValue (asked : List Char → Bool) (attributes : List (List Char × List Char)) :
    List Char :=
  ((attributes.find? fun attr => asked attr.1).map Prod.snd).getD []

/-- Whether tags with these attributes are mirrored. -/
def isSafeTag (kind : TagKind) (attributes : List (List Char × List Char)) : Bool :=
  match kind with
  | .metaTag => isSafeMetaName (firstValue isMetaNameKey attributes)
  | .linkTag => safeLinkRels.contains (firstValue isRelKey attributes)

/-- Whether an attribute of a mirrored tag is kept. -/
def isSafeKey (kind : TagKind) (key : List Char) : Bool :=
  match kind with
  | .metaTag => safeAttributes.contains key
  | .linkTag => safeAttributes.contains key || key == "href".toList || key == "rel".toList

/-- What is mirrored of a tag. -/
def safeTag (kind : TagKind) (rawAttrs : List (List Char × List Char)) : Option HtmlTag :=
  if isSafeTag kind rawAttrs then
    let safeAttrs := rawAttrs.filter fun attr => isSafeKey kind attr.1
    if safeAttrs.isEmpty then none else some ⟨kind, safeAttrs⟩
  else none

/-! ### The head -/

def startsWithIgnoreCase (needle text : List Char) : Bool :=
  (text.take needle.length).map Char.toLower == needle

/-- The text before the first occurrence of a text in any letter case, and that from there on. -/
def splitIgnoreCase (needle : List Char) : List Char → Option (List Char × List Char)
  | [] => none
  | first :: text =>
    if startsWithIgnoreCase needle (first :: text) then some ([], first :: text)
    else (splitIgnoreCase needle text).map fun found => (first :: found.1, found.2)

def headOpen : List Char := "<head".toList

def headClose : List Char := "</head>".toList

def extractHead (html : List Char) : Option (List Char) := do
  let opening ← splitIgnoreCase headOpen html
  let inside ← (opening.2.dropWhile (· != '>')).tail?
  let head ← splitIgnoreCase headClose inside
  return head.1

def extractTags (htmlBody : List Char) : List HtmlTag :=
  let body := (extractHead htmlBody).getD htmlBody
  (Matches.find tagAt body).filterMap fun found => safeTag found.1 (readAttributes words found.2)

/-! ### The template -/

/-- The attributes of a tag as an ordered map. -/
abbrev AttrMap := List (List Char × List Char)

def collectAttrs (attrs : List (List Char × List Char)) : AttrMap := Sorted.collect attrs

/-- A tag is added to the maps of its kind. -/
def addTag (values : List AttrMap × List AttrMap) (tag : HtmlTag) : List AttrMap × List AttrMap :=
  let attrs := collectAttrs tag.attrs
  match tag.tag with
  | .metaTag => (values.1 ++ [attrs], values.2)
  | .linkTag => (values.1, values.2 ++ [attrs])

/-- The maps of the meta tags and of the link tags. -/
def tagsToTemplateValues (tags : List HtmlTag) : List AttrMap × List AttrMap :=
  tags.foldl addTag ([], [])

/-- The characters that the template escapes in a value. -/
def templateSpecials : List Char := ['&', '<', '>', '"']

def isAttrName (key : List Char) : Bool :=
  !key.isEmpty && key.all fun char => char.isAlphanum || char == '-' || char == '_'

def renderTags (name : List Char) (tags : List AttrMap) : List Char :=
  tags.flatMap fun attrs =>
    '<' :: (name ++ ((attrs.flatMap fun attr =>
      if isAttrName attr.1 then
        ' ' :: (attr.1 ++ ('=' :: '"' :: (Markup.escape templateSpecials attr.2 ++ ['"'])))
      else []) ++ ['>']))

/-- What the template renders of the tags of one kind. -/
def challengeTags (kind : TagKind) (htmlBody : List Char) : List Char :=
  let values := tagsToTemplateValues (extractTags words htmlBody)
  match kind with
  | .metaTag => renderTags kind.name values.1
  | .linkTag => renderTags kind.name values.2

end TagFetcher

end Bagel
