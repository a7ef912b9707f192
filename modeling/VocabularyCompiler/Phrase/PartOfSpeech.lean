import VocabularyCompiler.Text.Lowercase
import VocabularyCompiler.Text.Words

/-!
# Parts of speech

A small tagger for the words of property names, with the tag set of the Penn treebank. Each word
is looked up in a lexicon or guessed from its ending; then one pass from left to right corrects
the tags that cannot stand after the tag before them. It has to tell verbs, participles,
adjectives and nouns apart in phrases of two or three words, and no more.
-/

namespace VocabularyCompiler.Phrase

open Text

/-- The parts of speech that the tagger knows. -/
inductive PartOfSpeech where
  /-- Noun, singular or mass. -/
  | nn
  /-- Noun, plural. -/
  | nns
  /-- Proper noun, singular. -/
  | nnp
  /-- Proper noun, plural. -/
  | nnps
  /-- Verb, base form. -/
  | vb
  /-- Verb, past tense. -/
  | vbd
  /-- Verb, gerund or present participle. -/
  | vbg
  /-- Verb, past participle. -/
  | vbn
  /-- Verb, present tense other than third person singular. -/
  | vbp
  /-- Verb, third person singular present tense. -/
  | vbz
  /-- Adjective. -/
  | jj
  /-- Adjective, comparative. -/
  | jjr
  /-- Adjective, superlative. -/
  | jjs
  /-- Adverb. -/
  | rb
  /-- Preposition. -/
  | inn
  /-- The word `to`. -/
  | infinitiveTo
  /-- Determiner. -/
  | dt
  /-- Coordinating conjunction. -/
  | cc
  /-- Cardinal number. -/
  | cd
  /-- Personal pronoun. -/
  | prp
  deriving DecidableEq, Repr

namespace PartOfSpeech

/-- The treebank's symbol of a part of speech. -/
def symbol : PartOfSpeech → String
  | nn => "NN"
  | nns => "NNS"
  | nnp => "NNP"
  | nnps => "NNPS"
  | vb => "VB"
  | vbd => "VBD"
  | vbg => "VBG"
  | vbn => "VBN"
  | vbp => "VBP"
  | vbz => "VBZ"
  | jj => "JJ"
  | jjr => "JJR"
  | jjs => "JJS"
  | rb => "RB"
  | inn => "IN"
  | infinitiveTo => "TO"
  | dt => "DT"
  | cc => "CC"
  | cd => "CD"
  | prp => "PRP"

/-- Whether the word is a noun. -/
def isNoun : PartOfSpeech → Bool
  | nn | nns | nnp | nnps => true
  | _ => false

/-- Whether the word is a participle or an adjective, which may head a passive phrase. -/
def isParticipial : PartOfSpeech → Bool
  | vbn | jj | jjr => true
  | _ => false

/-- The words that are known by heart, each under one part of speech. -/
def lexicon : List (PartOfSpeech × List String) :=
  [(.vbz, ["is", "has", "does", "contains", "serves", "offers", "accepts", "requires", "includes",
      "uses", "provides", "owns", "makes", "produces", "sells", "needs", "knows", "performs",
      "speaks", "seeks", "sponsors", "funds", "follows", "works", "lives", "holds", "yields",
      "feeds", "takes", "gives", "opens", "closes", "applies", "belongs", "covers", "starts",
      "ends", "runs", "plays", "features", "supports", "describes", "depicts", "reads"]),
    (.vbp, ["are", "have", "do", "contain", "serve", "accept", "require", "include", "provide",
      "own", "make", "produce", "sell", "need", "know", "perform", "speak", "seek", "fund",
      "follow", "hold", "yield", "feed", "give", "belong", "cover", "support"]),
    (.vbd, ["was", "were", "had", "did", "went", "won", "got", "came"]),
    (.vbn, ["been", "known", "born", "given", "written", "made", "held", "built", "sold", "taken",
      "done", "seen", "shown", "driven", "spoken", "worn", "grown", "drawn", "found", "paid",
      "sent", "set", "led", "read", "bought"]),
    (.jj, ["free", "friendly", "open", "available", "new", "old", "official", "main", "same",
      "public", "private", "additional", "alternate", "alternative", "original", "legal", "maximum",
      "minimum", "total", "average", "early", "late", "smoking", "family", "live", "daily",
      "monthly", "yearly", "weekly", "special", "local", "full", "due", "able"]),
    (.jjr, ["larger", "smaller", "higher", "lower", "older", "newer", "bigger", "better", "more",
      "less"]),
    (.jjs, ["best", "worst", "most", "least", "highest", "lowest"]),
    (.inn, ["of", "for", "in", "at", "by", "on", "with", "from", "about", "into", "over", "under",
      "per", "as", "within", "after", "before", "since", "during", "between", "via", "until"]),
    (.infinitiveTo, ["to"]),
    (.dt, ["the", "a", "an", "this", "that", "each", "every", "any", "some", "no"]),
    (.cc, ["and", "or", "but", "nor"]),
    (.prp, ["it", "he", "she", "they", "we", "you", "i"]),
    (.rb, ["not", "also", "only", "very", "well", "here", "there"]),
    (.nns, ["people", "children", "men", "women", "alumni", "media", "criteria", "data", "feet"]),
    (.nn, ["address", "access", "business", "status", "class", "process", "series", "species",
      "news", "analysis", "basis", "thesis", "campus", "bus", "virus", "census", "gross", "name",
      "date", "type", "part", "member", "time", "price", "place", "review", "rating", "offer",
      "work", "map", "photo", "event", "brand", "color", "model", "duration", "number", "award",
      "cuisine", "language", "area", "range", "body", "content"])]

/-- The part of speech of a word of the lexicon. -/
def known? (word : List Char) : Option PartOfSpeech :=
  (lexicon.find? fun e => String.ofList word ∈ e.2).map Prod.fst

/-- Endings of adjectives. -/
def adjectiveEndings : List (List Char) :=
  ["able", "ible", "ful", "less", "ous", "ive", "ical"].map String.toList

/-- Whether a word ends as given and is longer than `least` bytes. -/
def endsLong (word : List Char) (least : Nat) (ending : List Char) : Bool :=
  byteLength word > least && ending.isSuffixOf word

/-- The part of speech of a lower-case word on its own. -/
def guess (word : List Char) : PartOfSpeech :=
  match known? word with
  | some pos => pos
  | none =>
    if !word.isEmpty && word.all (fun c => ('0' ≤ c && c ≤ '9') || c = '.') then cd
    else if endsLong word 4 ['i', 'n', 'g'] then vbg
    else if endsLong word 3 ['e', 'd'] then vbn
    else if adjectiveEndings.any fun e => endsLong word (byteLength e + 2) e then jj
    else if endsLong word 3 ['l', 'y'] then rb
    else if endsLong word 2 ['s'] && !(['s', 's'].isSuffixOf word) && !(['u', 's'].isSuffixOf word)
        && !(['i', 's'].isSuffixOf word) then nns
    else nn

/-- The part of speech of a word that was guessed as `current`, after a word tagged `previous`: no
finite verb follows a determiner or an adjective, and after `to` stands a base form. -/
def inContext (previous current : PartOfSpeech) : PartOfSpeech :=
  match previous, current with
  | dt, vbz | jj, vbz => nns
  | dt, vbp | jj, vbp => nn
  | infinitiveTo, vbp | infinitiveTo, nn => vb
  | _, current => current

/-- Corrects guesses from left to right, each after the corrected tag before it. -/
def smoothAfter (previous : PartOfSpeech) : List PartOfSpeech → List PartOfSpeech
  | [] => []
  | current :: rest =>
    let corrected := inContext previous current
    corrected :: smoothAfter corrected rest

/-- Corrects a sequence of guesses; the first one stands. -/
def smooth : List PartOfSpeech → List PartOfSpeech
  | [] => []
  | first :: rest => first :: smoothAfter first rest

/-- The tags of a sequence of words, whatever their case. -/
def tagChars (tokens : List (List Char)) : List PartOfSpeech :=
  smooth (tokens.map fun t => guess (lowerChars t))

/-- The tags of a sequence of words, whatever their case. -/
def tag (tokens : List String) : List PartOfSpeech := tagChars (tokens.map String.toList)

/-- The tags of the words of a phrase, which stand between spaces. -/
def tagPhraseChars (phrase : List Char) : List PartOfSpeech :=
  tagChars ((splitSpaces phrase).filter fun w => !w.isEmpty)

/-- The tags of the words of a phrase, which stand between spaces. -/
def tagPhrase (phrase : String) : List PartOfSpeech := tagPhraseChars phrase.toList

end PartOfSpeech

end VocabularyCompiler.Phrase
