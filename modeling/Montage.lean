import Montage.Command.Basic
import Montage.Subtitle.Folder
import Montage.Subtitle.Format
import Montage.Subtitle.Join
import Montage.Subtitle.Sentence
import Montage.Subtitle.Validation
import Montage.Timeline.Captions
import Montage.Timeline.Effects
import Montage.Timeline.Platform
import Montage.Timeline.Subtitles
import Montage.Timeline.Text
import Montage.Timeline.Words
import Montage.Tracks.Export
import Montage.Tracks.Layers
import Montage.Tracks.Sync
import Montage.Proofs.Command.Arguments
import Montage.Proofs.Command.Order
import Montage.Proofs.Expr.Meaning
import Montage.Proofs.Filter.RoundTrip
import Montage.Proofs.Subtitle.Document
import Montage.Proofs.Subtitle.Srt
import Montage.Proofs.Tracks.Reachable
import Montage.Proofs.Timeline.RoundTrip
import Montage.Proofs.Subtitle.Script.RoundTrip
import Montage.Proofs.Subtitle.Vtt
import Montage.Proofs.Command.Drawn
import Montage.Proofs.Tracks.Drawn
import Montage.Proofs.Tracks.Batch
import Montage.Proofs.Subtitle.Detection
import Montage.Proofs.Subtitle.Strict
import Montage.Proofs.Number.Exact
import Montage.Proofs.Timeline.Joined
import Montage.Proofs.Subtitle.Renamed
import Montage.Proofs.Tracks.Call
import Montage.Proofs.Tracks.Gap
import Montage.Proofs.Tracks.FailedAddition
import Montage.Proofs.Subtitle.Rewritten
import Montage.Proofs.Timeline.CaptionWindow
import Montage.Proofs.Timeline.Burned
import Montage.Proofs.Subtitle.Script.Lenient
import Montage.Proofs.Subtitle.Lenient
import Montage.Proofs.Timeline.Length
import Montage.Proofs.Command.Tempo
import Montage.Proofs.Command.Switched
import Montage.Proofs.Position.Place
import Montage.Proofs.Number.Row
import Montage.Proofs.Style.Range
import Montage.Proofs.Timeline.Canvas
import Montage.Proofs.Expr.Exact
import Montage.Proofs.Animation.Course
import Montage.Proofs.Animation.Rest
import Montage.Proofs.Number.Same
import Montage.Proofs.Timeline.Brackets
import Montage.Proofs.Timeline.FadeOut
import Montage.Proofs.Subtitle.Joined
import Montage.Proofs.Command.Opened
import Montage.Proofs.Command.Played
import Montage.Proofs.Command.Accepted
import Montage.Proofs.Subtitle.Wrap
import Montage.Proofs.Subtitle.Chunks
import Montage.Proofs.Subtitle.WrappedDocument
import Montage.Proofs.Tracks.Filling
import Montage.Proofs.Tracks.Synchronized
import Montage.Proofs.Subtitle.Checked
import Montage.Proofs.Subtitle.Separate
import Montage.Proofs.Style.Agreement
import Montage.Proofs.Subtitle.Script.Arranged
import Montage.Proofs.Subtitle.Identifier
import Montage.Proofs.Style.Cascade
import Montage.Proofs.Filter.Token
import Montage.Proofs.Subtitle.Millisecond
import Montage.Proofs.Number.Span
import Montage.Proofs.Timeline.AutoTimed
import Montage.Proofs.Timeline.Highlighted
import Montage.Proofs.Tracks.PaintOrder
import Montage.Proofs.Subtitle.Sentence
import Montage.Proofs.Timeline.Extended
