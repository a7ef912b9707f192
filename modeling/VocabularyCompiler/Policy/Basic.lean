import VocabularyCompiler.ClassDefinition.ValueType
import VocabularyCompiler.Data.OrderedSet
import VocabularyCompiler.Phrase.Curated

/-!
# Policies

What a compilation goes by: the types that play a special part in a vocabulary, what is left out,
and tables that decide where a rule would not. The default suits the schema.org vocabulary.
-/

namespace VocabularyCompiler

/-- The rules of a compilation. -/
structure Policy where
  /-- Prefixes of the identifiers that belong to the vocabulary. -/
  namespaces : List String
  /-- The type that all others extend. -/
  rootType : String
  /-- The type whose subtypes are actions. -/
  actionRoot : String
  /-- The type whose subtypes are enumerations. -/
  enumerationRoot : String
  /-- The type whose subtypes are lists. -/
  listRoot : String
  /-- Endings that turn the name of a list type into the name of its element type. -/
  listSuffixes : List String
  /-- The type of plain text. -/
  textType : String
  /-- The type that stands for some quantity, to be told from the property's name. -/
  quantitativeType : String
  /-- Data types with an equivalent in the target language. -/
  builtinTypes : OrderedMap String ValueType
  excludedTypes : OrderedSet String
  excludedProperties : OrderedSet String
  /-- Types whose subtypes are written in place, as compound values. -/
  structRoots : List String
  /-- Types that are not written in place even so. -/
  nonStructTypes : OrderedSet String
  /-- Struct types that have the properties of all their ancestors. -/
  structIncludeRootProperties : OrderedSet String
  /-- Properties that always hold several values. -/
  forceArray : OrderedSet String
  /-- Properties that never hold several values. -/
  forceSingular : OrderedSet String
  /-- Types of single properties, whatever the vocabulary says. -/
  typeOverrides : OrderedMap String ValueType
  /-- Properties that cannot be filtered by. -/
  noFilter : OrderedSet String
  /-- Properties that are dropped from compound values where the record has its own location. -/
  dropWithGeo : OrderedSet String
  /-- The property that is a record's own location. -/
  geoProperty : String
  /-- Curated datasets in place of generated dataset keys. -/
  stringValueOverrides : OrderedMap String String
  /-- Words that the target language keeps for itself. -/
  keywords : OrderedSet String
  /-- Phrases that are always used in place of synthesized ones. -/
  canonicalOverrides : OrderedMap String PhraseSet
  /-- Phrases that are used in place of synthesized ones on demand. -/
  manualCanonicalOverrides : OrderedMap String PhraseSet

namespace Policy

/-- Data types of schema.org with an equivalent in the target language. -/
def defaultBuiltinTypes : List (String × ValueType) :=
  [("Time", .time), ("Number", .number), ("Float", .number), ("Integer", .number),
    ("Text", .string), ("Boolean", .boolean), ("DateTime", .date), ("Date", .date),
    ("DataType", .any), ("URL", .entity "tt:url"), ("ImageObject", .entity "tt:picture"),
    ("Barcode", .entity "tt:picture"), ("Mass", .measure "kg"), ("Energy", .measure "kcal"),
    ("Distance", .measure "m"), ("Duration", .measure "ms"), ("GeoCoordinates", .location),
    ("MonetaryAmount", .currency), ("QuantitativeValue", .any)]

/-- Properties of schema.org whose declared ranges are no use. -/
def defaultTypeOverrides : List (String × ValueType) :=
  [("telephone", .entity "tt:phone_number"), ("email", .entity "tt:email_address"),
    ("image", .entity "tt:picture"), ("logo", .entity "tt:picture"), ("checkinTime", .time),
    ("checkoutTime", .time), ("price", .currency), ("weight", .measure "ms"),
    ("depth", .measure "m"), ("description", .string), ("addressCountry", .entity "tt:country"),
    ("addressRegion", .entity "tt:us_state"), ("video", .entity "org.schema:VideoObject"),
    ("publisher", .entity "org.schema:Organization"), ("recipeYield", .string)]

/-- Curated datasets for properties of schema.org. -/
def defaultStringValueOverrides : List (String × String) :=
  [("org.schema.Restaurant:Restaurant_name", "com.yelp:restaurant_names"),
    ("org.schema.Person:Person_name", "tt:person_full_name"),
    ("org.schema.Person:Person_alumniOf", "tt:university_names"),
    ("org.schema.Person:Person_worksFor", "tt:company_name"),
    ("org.schema.Hotel:Hotel_name", "tt:hotel_name")]

/-- Types of schema.org that are left out. -/
def defaultExcludedTypes : List String :=
  ["QualitativeValue", "PropertyValue", "BedType", "MedicalBusiness", "Researcher"]

/-- Properties of schema.org that are left out. -/
def defaultExcludedProperties : List String :=
  ["sameAs", "affiliation", "mainEntityOfPage", "embedUrl", "itemReviewed", "bestRating",
    "worstRating", "reviewBody", "eligibleTransactionVolume", "addOn", "areaServed",
    "priceCurrency"]

/-- The keywords of the target language. -/
def defaultKeywords : List String :=
  ["let", "now", "new", "as", "of", "in", "out", "req", "opt", "notify", "return", "join", "edge",
    "monitor", "class", "extends", "mixin", "this", "import", "null", "enum", "aggregate",
    "dataset", "oninput", "sort", "asc", "desc", "bookkeeping", "compute", "true", "false"]

/-- The policy for schema.org. -/
def standard : Policy where
  namespaces := ["http://schema.org/", "https://schema.org/", "schema:"]
  rootType := "Thing"
  actionRoot := "Action"
  enumerationRoot := "Enumeration"
  listRoot := "ItemList"
  listSuffixes := ["List", "Collection", "Section", "Catalog"]
  textType := "Text"
  quantitativeType := "QuantitativeValue"
  builtinTypes := .ofList defaultBuiltinTypes
  excludedTypes := .ofList defaultExcludedTypes
  excludedProperties := .ofList defaultExcludedProperties
  structRoots := ["StructuredValue", "Rating", "Offer"]
  nonStructTypes := ∅
  structIncludeRootProperties := .ofList ["LocationFeatureSpecification"]
  forceArray := .ofList ["worksFor", "recipeCuisine", "recipeCategory"]
  forceSingular := .ofList ["offers"]
  typeOverrides := .ofList defaultTypeOverrides
  noFilter := .ofList ["name", "priceRange", "gtin13", "productID", "mpn"]
  dropWithGeo := .ofList ["streetAddress", "addressLocality"]
  geoProperty := "geo"
  stringValueOverrides := .ofList defaultStringValueOverrides
  keywords := .ofList defaultKeywords
  canonicalOverrides := Phrase.structural
  manualCanonicalOverrides := Phrase.manual

instance : Inhabited Policy := ⟨standard⟩

/-- Whether a type has an equivalent in the target language. -/
def isBuiltin (p : Policy) (name : String) : Bool := p.builtinTypes.contains name

/-- Whether the target language keeps a word for itself. -/
def isKeyword (p : Policy) (name : String) : Bool := p.keywords.contains name

/-- A name that is no keyword: an underscore goes in front of one that is. -/
def escapeKeyword (p : Policy) (name : String) : String :=
  if p.isKeyword name then "_" ++ name else name

/-- The phrases that a property has by table; the second table counts only if `manual` is set. -/
def canonicalOverride? (p : Policy) (name : String) (manual : Bool) : Option PhraseSet :=
  (p.canonicalOverrides.get? name).or
    (if manual then p.manualCanonicalOverrides.get? name else none)

/-- Whether a property always has its phrases by table. -/
def hasCanonicalOverride (p : Policy) (name : String) : Bool := p.canonicalOverrides.contains name

end Policy

end VocabularyCompiler
