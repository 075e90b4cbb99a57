import SqlCompose.Text
import SqlCompose.Text.Blank
import SqlCompose.Text.Digit
import SqlCompose.Text.Printable
import SqlCompose.Text.Quoted
import SqlCompose.Numeral
import SqlCompose.Fragment
import SqlCompose.Value
import SqlCompose.Form
import SqlCompose.Marking
import SqlCompose.Keyword
import SqlCompose.Error
import SqlCompose.Clause
import SqlCompose.Statement
import SqlCompose.Template.Span
import SqlCompose.Template
import SqlCompose.Parameters
import SqlCompose.Parameters.Embedding
import SqlCompose.Parameters.Compilation
import SqlCompose.Operand
import SqlCompose.Draft
import SqlCompose.Phrase
import SqlCompose.Builder
import SqlCompose.Session
import SqlCompose.Proofs.Reading
import SqlCompose.Proofs.Consistency
import SqlCompose.Proofs.Evolution
import SqlCompose.Proofs.Filling
import SqlCompose.Proofs.Merging
import SqlCompose.Proofs.Carrying
import SqlCompose.Proofs.Edits
import SqlCompose.Proofs.Memory
import SqlCompose.Proofs.Phrases
import SqlCompose.Proofs.Journal
import SqlCompose.Proofs.Survival
import SqlCompose.Proofs.Alignment
import SqlCompose.Proofs.Associativity
import SqlCompose.Proofs.Forgetting
import SqlCompose.Proofs.Expressions
import SqlCompose.Proofs.Composition
import SqlCompose.Proofs.Replacement
import SqlCompose.Proofs.Numbering
import SqlCompose.Proofs.Dependence
import SqlCompose.Proofs.Redeclaration
import SqlCompose.Proofs.Agreement
import SqlCompose.Proofs.Accounting
import SqlCompose.Proofs.Atomicity
import SqlCompose.Proofs.Assignment
import SqlCompose.Proofs.Interleaving
import SqlCompose.Proofs.Weaving
import SqlCompose.Proofs.Vocabulary
import SqlCompose.Proofs.Interchange
import SqlCompose.Proofs.Batching
import SqlCompose.Proofs.Quoting
import SqlCompose.Proofs.Tokens
import SqlCompose.Proofs.Literals
import SqlCompose.Proofs.Distinction
import SqlCompose.Proofs.Shortcut
import SqlCompose.Proofs.Nesting
import SqlCompose.Proofs.Sorting
import SqlCompose.Proofs.Predicates
import SqlCompose.Proofs.Canonical
import SqlCompose.Proofs.Display
