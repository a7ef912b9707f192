import VocabularyCompiler.Phrase.PhraseSet

/-!
# Curated phrases

Phrase sets written by hand, which stand in place of synthesized ones: a few for properties that
most types share, and a larger table for those who want the annotations of particular domains.
-/

namespace VocabularyCompiler.Phrase

/-- A property with its default tag and its phrases. -/
abbrev CuratedEntry := String × PhraseTag × List (PhraseTag × List String)

/-- The phrase set of an entry. -/
def CuratedEntry.toPhraseSet (e : CuratedEntry) : PhraseSet :=
  ⟨e.2.1, .ofList e.2.2, false, false⟩

/-- Properties that most types share. -/
def structuralEntries : List CuratedEntry :=
  [("url", .property, [(.base, ["url", "link"])]),
    ("name", .property, [(.base, ["name"]), (.passiveVerb, ["called"])]),
    ("description", .property, [(.base, ["description", "summary"])]),
    ("geo", .property, [(.base, ["location", "address"]), (.passiveVerb, ["in", "around", "at",
      "on"])]),
    ("streetAddress", .property, [(.base, ["street"])]),
    ("addressCountry", .passiveVerb, [(.passiveVerb, ["in"]), (.base, ["country"])]),
    ("addressRegion", .passiveVerb, [(.passiveVerb, ["in"]), (.base, ["state"])]),
    ("addressLocality", .property, [(.base, ["city"])])]

/-- Properties of restaurants, hotels, people, recipes and products. -/
def manualEntries : List CuratedEntry :=
  [("datePublished", .passiveVerb, [(.passiveVerb, ["published on", "written on"]), (.base,
      ["date published"])]),
    ("ratingValue", .passiveVerb, [(.passiveVerb, ["rated #star"]), (.base, ["rating"])]),
    ("reviewRating", .property, [(.base, ["rating"])]),
    ("telephone", .property, [(.base, ["telephone", "phone number"])]),
    ("servesCuisine", .verb, [(.verb, ["serves #cuisine", "serves #food", "offer #cuisine",
      "offer #food", "serves", "offers"]), (.property, ["#cuisine", "#food"]), (.base, ["cuisine",
      "food type"])]),
    ("amenityFeature", .property, [(.base, ["amenity", "amenity feature"]), (.property, ["amenity",
      "amenity feature"]), (.verb, ["offers", "offer", "has", "have"])]),
    ("checkinTime", .property, [(.base, ["checkin time", "check in time", "check-in time"]),
      (.property, ["checkin time", "check in time", "check-in time"])]),
    ("checkoutTime", .property, [(.base, ["checkout time", "check out time", "check-out time"]),
      (.property, ["checkout time", "check out time", "check-out time"])]),
    ("alumniOf", .reverseProperty, [(.base, ["colleges", "universities", "alma maters"]),
      (.reverseProperty, ["alumni of", "alumnus of", "alumna of", "#alumnus", "#alumni", "#grad",
      "#graduate"]), (.verb, ["was educated at", "is graduated from", "was studied at", "went to",
      "graduated from", "attended"]), (.passiveVerb, ["educated at", "graduated from", "studied at",
      "attended"]), (.property, ["colleges", "universities", "alma maters"])]),
    ("award", .verb, [(.base, ["awards"]), (.reverseProperty, ["winner of", "recipient of",
      "#winner", "#awardee", "#recipient", "#holder"]), (.verb, ["has the award",
      "has received the #award", "won the award for", "won the #award", "received the #award",
      "received the", "won the", "won", "holds the award for", "holds the #award"]), (.passiveVerb,
      ["received"]), (.property, ["awards"])]),
    ("affiliation", .reverseProperty, [(.base, ["affiliations"]), (.reverseProperty,
      ["affiliated with", "affiliated to", "member of"]), (.property, ["affiliations"])]),
    ("worksFor", .verb, [(.base, ["employers"]), (.reverseProperty, ["employee of", "#employee"]),
      (.verb, ["works for", "works at", "worked at", "worked for"]), (.passiveVerb, ["employed at",
      "employed by"]), (.property, ["employers"])]),
    ("addressLocality", .verb, [(.base, ["city"]), (.property, ["city"]), (.verb, ["lives in",
      "lived in"]), (.passiveVerb, ["from", "in"])]),
    ("author", .passiveVerb, [(.verb, ["was written by", "was submitted by"]), (.passiveVerb, ["by",
      "made by", "written by", "created by", "authored by", "uploaded by", "submitted by"]),
      (.property, ["author", "creator"])]),
    ("publisher", .passiveVerb, [(.verb, ["was published by", "was submitted by"]), (.passiveVerb,
      ["by", "made by", "published by"]), (.property, ["publisher"])]),
    ("prepTime", .property, [(.verb, ["takes #to_prepare", "needs #to_prepare"]), (.property,
      ["prep time", "preparation time", "time to prep", "time to prepare"])]),
    ("cookTime", .property, [(.verb, ["takes #to_cook", "needs #to_cook"]), (.property,
      ["cook time", "cooking time", "time to cook"])]),
    ("totalTime", .verb, [(.verb, ["takes", "requires", "needs", "uses", "consumes"]), (.property,
      ["total time", "time in total", "time to make"])]),
    ("recipeYield", .verb, [(.verb, ["yields", "feeds", "produces", "results in", "is good for"]),
      (.passiveVerb, ["yielding"]), (.property, ["yield amount", "yield size"])]),
    ("recipeCategory", .property, [(.property, ["categories"])]),
    ("recipeIngredient", .property, [(.verb, ["contains", "uses", "has"]), (.passiveVerb,
      ["containing", "using"]), (.property, ["ingredients"])]),
    ("recipeInstructions", .property, [(.property, ["instructions"])]),
    ("recipeCuisines", .verb, [(.verb, ["belongs to the #cuisine"]), (.property, ["cuisines"])]),
    ("reviewBody", .property, [(.property, ["body", "text", "content"])]),
    ("saturatedFatContent", .property, [(.property, ["saturated fat content",
      "saturated fat amount", "saturated fat", "trans fat"])]),
    ("mpn", .property, [(.property, ["manufacturer part number"])])]

/-- Properties whose value reads as an adjective in front of the verb: "serves Italian food". -/
def adjectivalProperties : List String := ["servesCuisine", "recipeCuisines"]

/-- The phrases that are always used. -/
def structural : OrderedMap String PhraseSet :=
  .ofList (structuralEntries.map fun e => (e.1, e.toPhraseSet))

/-- The phrases that are used on demand. -/
def manual : OrderedMap String PhraseSet :=
  .ofList <| manualEntries.map fun e =>
    (e.1, { e.toPhraseSet with apv := decide (e.1 ∈ adjectivalProperties) })

end VocabularyCompiler.Phrase
