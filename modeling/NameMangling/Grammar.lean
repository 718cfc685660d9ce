/-
# The symbol grammar

Tokens, phrases and the production of every phrase.
-/
import NameMangling.Grammar.Production
