import XmlGrove.Script.Building
import XmlGrove.Script.CursorCall
import XmlGrove.Script.Extension
import XmlGrove.Script.Inspection
import XmlGrove.Script.Rendition
import XmlGrove.Script.Session
import XmlGrove.Proofs.Grammar.Document
import XmlGrove.Proofs.Grove.Agreement
import XmlGrove.Proofs.Grove.Comparison
import XmlGrove.Proofs.Grove.Cycle
import XmlGrove.Proofs.Path.Location
import XmlGrove.Proofs.RoundTrip.Reload
import XmlGrove.Proofs.RoundTrip.Indentation
import XmlGrove.Proofs.Failure.Construction
import XmlGrove.Proofs.Failure.Location
import XmlGrove.Proofs.Failure.Shown
import XmlGrove.Proofs.Failure.Parsing
import XmlGrove.Proofs.Options.Removal
import XmlGrove.Proofs.Document.Revision
import XmlGrove.Proofs.RoundTrip.Returns
import XmlGrove.Proofs.RoundTrip.Utf8
import XmlGrove.Proofs.Document.Refusal
import XmlGrove.Proofs.Document.Reloading
import XmlGrove.Proofs.Document.Likeness
import XmlGrove.Proofs.Grove.Insertion
import XmlGrove.Proofs.Grove.Kinship
import XmlGrove.Proofs.Grove.Traversal
import XmlGrove.Proofs.Grove.Levels
import XmlGrove.Proofs.Css.Chain
import XmlGrove.Proofs.Path.Composition
import XmlGrove.Proofs.Path.Order
import XmlGrove.Proofs.Path.Quotation
import XmlGrove.Proofs.Css.Selection
import XmlGrove.Proofs.Building.Stack
import XmlGrove.Proofs.Building.Reconstruction
import XmlGrove.Proofs.Encoding.Declared
import XmlGrove.Proofs.Options.Tidiness
import XmlGrove.Proofs.Elements.Conformity
import XmlGrove.Proofs.Elements.Fragments
import XmlGrove.Proofs.Loading.Precedence
import XmlGrove.Proofs.Listing.Prologues
import XmlGrove.Proofs.Cursor.Reckoning
import XmlGrove.Proofs.Cursor.Steering
import XmlGrove.Proofs.Entity.Signs
