import HackerTyper.Foundations.Regex
import HackerTyper.Foundations.Matching
import HackerTyper.Foundations.Lexer
import HackerTyper.Foundations.Alphabet
import HackerTyper.Foundations.Segments
import HackerTyper.Foundations.Restart
import HackerTyper.Foundations.Concatenation
import HackerTyper.Foundations.Extent
import HackerTyper.Foundations.Rewrite
import HackerTyper.Foundations.Machine
import HackerTyper.Foundations.Refinement
import HackerTyper.Foundations.History
import HackerTyper.Js.Text
import HackerTyper.Js.Lines
import HackerTyper.Js.Object
import HackerTyper.Js.Pattern
import HackerTyper.Js.RegExp
import HackerTyper.Js.Number
import HackerTyper.Js.Json
import HackerTyper.Js.Stringify
import HackerTyper.Js.Utf16
import HackerTyper.Js.Characters
import HackerTyper.SyntaxHighlight.Languages
import HackerTyper.SyntaxHighlight.Scanner
import HackerTyper.SyntaxHighlight.Lexemes
import HackerTyper.SyntaxHighlight.Tokenize
import HackerTyper.SyntaxHighlight.Segmentation
import HackerTyper.SyntaxHighlight.Classification
import HackerTyper.SyntaxHighlight.Keywords
import HackerTyper.SyntaxHighlight.Stability
import HackerTyper.SyntaxHighlight.Placement
import HackerTyper.SyntaxHighlight.Meaning
import HackerTyper.SyntaxHighlight.Comments
import HackerTyper.SyntaxHighlight.Strings
import HackerTyper.SyntaxHighlight.Words
import HackerTyper.SyntaxHighlight.Incremental
import HackerTyper.SyntaxHighlight.Coloring
import HackerTyper.SyntaxHighlight.LineByLine
import HackerTyper.SyntaxHighlight.Standalone
import HackerTyper.SyntaxHighlight.AnyConfiguration
import HackerTyper.SyntaxHighlight.Shape
import HackerTyper.SyntaxHighlight.Characters
import HackerTyper.Model
import HackerTyper.Model.Preparation
import HackerTyper.Model.Beginning
import HackerTyper.Model.Prepared
import HackerTyper.Model.Characters
import HackerTyper.Model.Preview
import HackerTyper.SourceCatalog
import HackerTyper.Service
import HackerTyper.Service.Loading
import HackerTyper.Service.LastSignal
import HackerTyper.Service.Consistency
import HackerTyper.Service.Status
import HackerTyper.Service.UnknownSource
import HackerTyper.Overlay
import HackerTyper.Overlay.Markup
import HackerTyper.Overlay.StyledText
import HackerTyper.Overlay.Display
import HackerTyper.Overlay.Screen
import HackerTyper.Overlay.Opening
import HackerTyper.Overlay.Launch
import HackerTyper.Overlay.Session
import HackerTyper.Overlay.Surrogates
import HackerTyper.Overlay.Characters
import HackerTyper.System
import HackerTyper.System.Delivery
import HackerTyper.System.Screen
import HackerTyper.System.Typing
import HackerTyper.System.AccessCard
import HackerTyper.System.Characters
import HackerTyper.Panel
import HackerTyper.Desktop
import HackerTyper.Desktop.Launching
import HackerTyper.Desktop.Views
