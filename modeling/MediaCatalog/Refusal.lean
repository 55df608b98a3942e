import MediaCatalog.Schema

namespace MediaCatalog

-- Why a request is turned down as malformed.
inductive Refusal
  | unnamedParameter (key : String)
  | repeatedField (name : String)
  | notCount (parameter : String)
  | pageBelow (first : Nat)
  | sortDirection (direction : String)
  | sortParameter (parameter : String)
  | languageTag (tag : String)
  | unknownAttribute (name : String)
  | noTranslation
  | repeatedLanguage (tag : String)
  | unknownTranslationAttribute (name : String)
  | namelessTranslation (tag : String)
  | attributeValue (field : Field)
  | contentType
  | bodyMediaType
  | bodyLength
  | bodySyntax
  | bodyShape
  deriving DecidableEq, Repr

namespace Refusal

-- What an attribute of a type has to be.
def requirement : FieldType → String
  | .text     => "must be a string"
  | .integer  => "must be an integer"
  | .byte     => "must be an integer between -128 and 127"
  | .date     => "must be a date formatted as YYYY-MM-DD"
  | .textList => "must be an array of strings"

def message : Refusal → String
  | unnamedParameter key             => "Invalid query parameter: " ++ key
  | repeatedField name               => "Filter field supplied more than once: " ++ name
  | notCount parameter               => parameter ++ " must be a non-negative integer"
  | pageBelow first                  => "page must be at least " ++ Text.decimalNat first
  | sortDirection direction          => "Invalid sort direction: " ++ direction
  | sortParameter parameter          => "Invalid sort parameter: " ++ parameter
  | languageTag tag                  => "Invalid language tag: " ++ tag
  | unknownAttribute name            => "Unknown attribute: " ++ name
  | noTranslation                    => "At least one translation is required"
  | repeatedLanguage tag             => "Duplicate translation language: " ++ tag
  | unknownTranslationAttribute name => "Unknown translation attribute: " ++ name
  | namelessTranslation tag          => "Translation '" ++ tag ++ "' requires a non-empty name"
  | attributeValue field             =>
    "Attribute '" ++ field.name ++ "' " ++ requirement field.type
  | contentType                      => "Content-Type must be application/json"
  | bodyMediaType                    =>
    "Invalid JSON: Expected request with `Content-Type: application/json`"
  | bodyLength                       =>
    "Invalid JSON: Failed to buffer the request body: length limit exceeded"
  | bodySyntax                       => "Invalid JSON: Failed to parse the request body as JSON"
  | bodyShape                        =>
    "Invalid JSON: Failed to deserialize the JSON body into the target type"

def fault (r : Refusal) : Fault :=
  .badRequest r.message

end Refusal

end MediaCatalog
